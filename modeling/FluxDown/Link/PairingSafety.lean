import FluxDown.Link.Authorize
import FluxDown.Link.Responder

/-!
# A record belongs to one approved session of one signed hello

Library `Link`. Whatever the order of the sections of calls, a record that is returned goes back
to one hello, its code, its reveal and the user's approval. The invariant says of each call
in flight and of each session what the history shows of them; sections are put together from
a few changes of the state that each keep it.
-/

namespace Link

open Base

/-! ## Events -/

namespace PairingEvent

/-- The call that used a code up. -/
def consumer : PairingEvent → Option Nat
  | .consumed call _ _ => some call
  | _ => none

/-- The call that created a session. -/
def creator : PairingEvent → Option Nat
  | .created call _ _ _ _ => some call
  | _ => none

/-- The call of a hello. -/
def caller : PairingEvent → Option Nat
  | .compared call _ _ _ | .consumed call _ _ | .created call _ _ _ _ => some call
  | _ => none

/-- The session that was created. -/
def createdSession : PairingEvent → Option String
  | .created _ session _ _ _ => some session
  | _ => none

/-- The session that was used up by a record or a refusal. -/
def closedSession : PairingEvent → Option String
  | .recorded session _ | .refused session => some session
  | _ => none

/-- The session that made a record. -/
def recordedSession : PairingEvent → Option String
  | .recorded session _ => some session
  | _ => none

/-- The event is an accepted reveal. -/
def isReveal : PairingEvent → Bool
  | .revealed .. => true
  | _ => false

/-- The live code changed. -/
def onCodes : PairingEvent → Bool
  | .generated _ _ | .revoked | .consumed _ _ _ => true
  | _ => false

end PairingEvent

/-- A hello of the right version and with addresses that can be parsed. -/
def HelloRequest.Shaped (req : HelloRequest) (addrs : List String) : Prop :=
  req.protocolVersion = pairingProtocolVersion ∧ validateInitiatorAddrs req.initiatorAddrs = .ok addrs

/-- A hello that is signed as well. -/
structure HelloRequest.Genuine (c : Primitives) (req : HelloRequest) (addrs : List String) : Prop where
  /-- Version and addresses are right. -/
  shaped : req.Shaped addrs
  /-- The signature is right. -/
  signed : c.identityVerify req.initiatorIdPub (helloMessage req) req.initiatorSig = true

/-- The call used up the live code: the code of its hello was generated, as the event at the
position, within its time and neither replaced nor revoked nor used up before. -/
def UsedUp (history : List PairingEvent) (position call : Nat) (req : HelloRequest) : Prop :=
  ∃ before between after issued time, before.length = position ∧
    history = before ++ .generated req.code issued :: (between ++ .consumed call req time :: after) ∧
      (∀ event ∈ between, event.onCodes = false) ∧ time - issued < codeTtl

/-- The hello of a session and what was made of it. -/
structure Origin where
  call : Nat
  /-- Where the code was generated. -/
  position : Nat
  req : HelloRequest
  me : SelfInfo
  addrs : List String
  time : Nat

/-- The reveal of a session and what was made of it. -/
structure Revelation where
  req : RevealRequest
  z : Bytes32
  transcript : Transcript
  time : Nat

/-- The creation of the session. -/
def Origin.event (o : Origin) (session : String) : PairingEvent :=
  .created o.call session o.req o.me o.time

/-- The acceptance of the reveal. -/
def Revelation.event (v : Revelation) (session : String) : PairingEvent :=
  .revealed session v.req v.z v.transcript v.time

/-- The session was created by a signed hello that used up the live code. -/
structure Origin.Sound (c : Primitives) (history : List PairingEvent) (session : String)
    (o : Origin) : Prop where
  created : o.event session ∈ history
  usedUp : UsedUp history o.position o.call o.req
  genuine : o.req.Genuine c o.addrs

/-- The reveal came in time and opens the commitment of the hello. -/
structure Revelation.Matches (c : Primitives) (identity : LinkIdentity) (session : String)
    (o : Origin) (v : Revelation) : Prop where
  session_eq : v.req.sessionId = session
  in_time : v.time ≤ o.time + revealTimeout
  opens : verifyEphCommitment c o.req.initiatorCommit v.req.initiatorEphPub v.req.initiatorNonce
  transcript_eq : ∃ ephSecret nonce, v.z = c.diffieHellman ephSecret v.req.initiatorEphPub ∧
    v.transcript = PairingResponder.transcriptOf c identity v.req o.req.initiatorIdPub ephSecret
      nonce (hashTranscript c (helloMessage o.req))
      (responderInfoDigest c o.me.name o.me.platform o.me.appVersion)

/-- The session was revealed and then approved. -/
def Approved (history : List PairingEvent) (session : String) (o : Origin) (v : Revelation) : Prop :=
  [o.event session, v.event session, .decided session true].Sublist history

/-- The stage of a session agrees with its hello and the history. -/
def StageOk (c : Primitives) (identity : LinkIdentity) (history : List PairingEvent)
    (session : String) (o : Origin) : SessionStage → Prop
  | .awaitingReveal commit _ _ helloDigest infoDigest =>
    commit = o.req.initiatorCommit ∧ helloDigest = hashTranscript c (helloMessage o.req) ∧
      infoDigest = responderInfoDigest c o.me.name o.me.platform o.me.appVersion
  | .revealed z transcriptHash _ decision => ∃ v : Revelation,
    v.Matches c identity session o ∧ v.z = z ∧ v.transcript.hash c = transcriptHash ∧
      [o.event session, v.event session].Sublist history ∧
      (decision = some true → Approved history session o v)

/-- A session goes back to a hello. -/
structure Traced (c : Primitives) (identity : LinkIdentity) (history : List PairingEvent)
    (session : String) (entry : ConfirmEntry) (o : Origin) : Prop where
  sound : o.Sound c history session
  created_eq : entry.created = o.time
  identity_eq : entry.initiatorIdPub = o.req.initiatorIdPub
  addrs_eq : entry.initiatorAddrs = o.addrs
  control_eq : entry.requestControl = o.req.requestControl
  stage : StageOk c identity history session o entry.stage

/-- A record goes back to one signed hello that used up a code, its reveal and the approval. -/
structure Authorised (c : Primitives) (identity : LinkIdentity) (history : List PairingEvent)
    (session : String) (record : PeerRecord) (o : Origin) (v : Revelation) : Prop where
  sound : o.Sound c history session
  matching : v.Matches c identity session o
  order : [o.event session, v.event session, .decided session true,
    .recorded session record].Sublist history
  identity_eq : record.identityPub = o.req.initiatorIdPub.toList
  candidates_eq : record.candidates = o.addrs.map fun address ↦ ⟨.direct, address⟩
  control_eq : record.grantsControl = o.req.requestControl

/-! ## Histories grow -/

section Growth

variable {c : Primitives} {identity : LinkIdentity} {history : List PairingEvent}
  {session : String} {o : Origin} {v : Revelation} (event : PairingEvent)

private theorem UsedUp.grow {position call : Nat} {req : HelloRequest}
    (h : UsedUp history position call req) : UsedUp (history ++ [event]) position call req := by
  obtain ⟨before, between, after, issued, time, hposition, rfl, hbetween, htime⟩ := h
  exact ⟨before, between, after ++ [event], issued, time, hposition, by simp, hbetween, htime⟩

private theorem Origin.Sound.grow (h : o.Sound c history session) :
    o.Sound c (history ++ [event]) session :=
  ⟨List.mem_append_left _ h.created, h.usedUp.grow event, h.genuine⟩

private theorem sublist_grow {l : List PairingEvent} (h : l.Sublist history) :
    l.Sublist (history ++ [event]) :=
  h.trans (List.sublist_append_left _ _)

private theorem StageOk.grow {stage : SessionStage}
    (h : StageOk c identity history session o stage) :
    StageOk c identity (history ++ [event]) session o stage := by
  cases stage with
  | awaitingReveal commit ephSecret nonce helloDigest infoDigest => exact h
  | revealed z transcriptHash announced decision =>
    obtain ⟨v, hmatches, hz, hhash, horder, happroved⟩ := h
    exact ⟨v, hmatches, hz, hhash, sublist_grow event horder,
      fun htrue ↦ sublist_grow event (happroved htrue)⟩

private theorem Traced.grow {entry : ConfirmEntry} (h : Traced c identity history session entry o) :
    Traced c identity (history ++ [event]) session entry o :=
  { h with sound := h.sound.grow event, stage := h.stage.grow event }

private theorem Authorised.grow {record : PeerRecord}
    (h : Authorised c identity history session record o v) :
    Authorised c identity (history ++ [event]) session record o v :=
  { h with sound := h.sound.grow event, order := sublist_grow event h.order }

end Growth

/-! ## The invariant -/

namespace Call

/-- The session a reveal holds outside the table. -/
def holds : Call → Option String
  | .revealTaken req _ | .revealChecked req _ _ _ _ => some req.sessionId
  | _ => none

/-- The hello may still use a code up. -/
def mayConsume : Call → Bool
  | .helloAllowed _ _ _ | .helloVerified _ _ => true
  | _ => false

/-- The hello may still create a session. -/
def mayCreate : Call → Bool
  | .helloAllowed _ _ _ | .helloVerified _ _ | .helloConsumed _ _ | .helloNamed _ _ _ => true
  | _ => false

/-- The hello creates its session next. -/
def isNamed : Call → Bool
  | .helloNamed _ _ _ => true
  | _ => false

/-- What the history shows of a call. -/
def Ok (c : Primitives) (identity : LinkIdentity) (history : List PairingEvent) (n : Nat) :
    Call → Prop
  | .helloAllowed req addrs _ => req.Shaped addrs
  | .helloVerified req addrs => req.Genuine c addrs
  | .helloConsumed req addrs | .helloNamed req addrs _ =>
    req.Genuine c addrs ∧ ∃ position, UsedUp history position n req
  | .revealTaken req entry => ∃ o, Traced c identity history req.sessionId entry o ∧
    ∀ z transcriptHash announced decision,
      entry.stage ≠ .revealed z transcriptHash announced decision
  | .revealChecked req entry z transcriptHash _ => ∃ (o : Origin) (v : Revelation),
    Traced c identity history req.sessionId entry o ∧ v.Matches c identity req.sessionId o ∧
      v.z = z ∧ v.transcript.hash c = transcriptHash ∧
      [o.event req.sessionId, v.event req.sessionId].Sublist history
  | .confirmRead session decision => decision = true →
    ∃ (o : Origin) (v : Revelation), v.Matches c identity session o ∧ Approved history session o v
  | .returned result => ∀ record, result = .ok (.confirm (some record)) →
    ∃ session, .recorded session record ∈ history
  | .helloFailed _ _ | .confirmLooking _ _ | .confirmParked _ _ _ | .confirmLate _ => True

private theorem Ok.grow {c : Primitives} {identity : LinkIdentity} {history : List PairingEvent}
    {n : Nat} {call : Call} (event : PairingEvent) (h : call.Ok c identity history n) :
    call.Ok c identity (history ++ [event]) n := by
  cases call with
  | helloConsumed req addrs => exact ⟨h.1, h.2.imp fun _ husedUp ↦ husedUp.grow event⟩
  | helloNamed req addrs me => exact ⟨h.1, h.2.imp fun _ husedUp ↦ husedUp.grow event⟩
  | revealTaken req entry =>
    obtain ⟨o, htraced, hstage⟩ := h
    exact ⟨o, htraced.grow event, hstage⟩
  | revealChecked req entry z transcriptHash accepted =>
    obtain ⟨o, v, htraced, hmatches, hz, hhash, horder⟩ := h
    exact ⟨o, v, htraced.grow event, hmatches, hz, hhash, sublist_grow event horder⟩
  | confirmRead session decision =>
    intro htrue
    obtain ⟨o, v, hmatches, happroved⟩ := h htrue
    exact ⟨o, v, hmatches, sublist_grow event happroved⟩
  | helloAllowed req addrs source => exact h
  | helloVerified req addrs => exact h
  | returned result =>
    intro record hrecord
    obtain ⟨session, hmem⟩ := h record hrecord
    exact ⟨session, List.mem_append_left _ hmem⟩
  | helloFailed | confirmLooking | confirmParked | confirmLate => trivial

end Call

/-- What holds of the responder between any two sections. -/
structure Lawful (c : Primitives) (r : PairingResponder) : Prop where
  /-- One code is live at most. -/
  one_code : r.codes.length ≤ 1
  /-- A code in the table was generated and nothing happened to codes since. -/
  code_live : ∀ entry ∈ r.codes, ∃ before between,
    r.history = before ++ .generated entry.code entry.created :: between ∧
      ∀ event ∈ between, event.onCodes = false
  /-- The history shows what calls need. -/
  calls_ok : ∀ n (call : Call), r.calls[n]? = some call → call.Ok c r.identity r.history n
  /-- Sessions in the table go back to hellos. -/
  table_ok : ∀ session entry, r.sessions session = some entry →
    ∃ o, Traced c r.identity r.history session entry o
  /-- A session in the table is held by no call. -/
  table_free : ∀ session, (r.sessions session).isSome → ∀ call ∈ r.calls, call.holds ≠ some session
  /-- A session is held by one call at most. -/
  held_once : ∀ (i j : Nat) (call call' : Call) session, r.calls[i]? = some call → r.calls[j]? = some call' →
    call.holds = some session → call'.holds = some session → i = j
  /-- Events come from calls that began. -/
  callers : ∀ event ∈ r.history, ∀ n, event.caller = some n → n < r.calls.length
  /-- A hello that may use a code up has not done so. -/
  unspent : ∀ n (call : Call), r.calls[n]? = some call → call.mayConsume →
    n ∉ r.history.filterMap PairingEvent.consumer
  /-- A hello that may create a session has not done so. -/
  uncreated : ∀ n (call : Call), r.calls[n]? = some call → call.mayCreate →
    n ∉ r.history.filterMap PairingEvent.creator
  /-- A session that was used up is gone. -/
  gone : ∀ session ∈ r.history.filterMap PairingEvent.closedSession,
    r.sessions session = none ∧ (∀ call ∈ r.calls, call.holds ≠ some session) ∧
      session ∈ r.history.filterMap PairingEvent.createdSession
  /-- A hello uses a code up once. -/
  consumed_once : (r.history.filterMap PairingEvent.consumer).Nodup
  /-- A hello creates one session. -/
  creator_once : (r.history.filterMap PairingEvent.creator).Nodup
  /-- A session is created once. -/
  created_once : (r.history.filterMap PairingEvent.createdSession).Nodup
  /-- A session is used up once. -/
  closed_once : (r.history.filterMap PairingEvent.closedSession).Nodup
  /-- Codes are used up by signed hellos. -/
  consumed_ok : ∀ n req time, .consumed n req time ∈ r.history →
    ∃ addrs position, req.Genuine c addrs ∧ UsedUp r.history position n req
  /-- Sessions go back to hellos. -/
  created_ok : ∀ session ∈ r.history.filterMap PairingEvent.createdSession,
    ∃ o : Origin, o.Sound c r.history session
  /-- Accepted reveals go back to hellos. -/
  revealed_ok : ∀ session (v : Revelation), v.event session ∈ r.history →
    ∃ o : Origin, o.Sound c r.history session ∧ v.Matches c r.identity session o ∧
      [o.event session, v.event session].Sublist r.history
  /-- Records are authorised. -/
  records_ok : ∀ session record, .recorded session record ∈ r.history →
    ∃ o v, Authorised c r.identity r.history session record o v

section Changes

variable {c : Primitives} {r : PairingResponder}

/-- Codes and sessions may be dropped from their tables. -/
theorem Lawful.restrict {r' : PairingResponder} (h : Lawful c r)
    (hcodes : r'.codes.Sublist r.codes)
    (hsessions : ∀ session entry, r'.sessions session = some entry →
      r.sessions session = some entry)
    (hidentity : r'.identity = r.identity) (hcalls : r'.calls = r.calls)
    (hhistory : r'.history = r.history) : Lawful c r' := by
  have hnone : ∀ session, r.sessions session = none → r'.sessions session = none := by
    intro session hsession
    cases hsome : r'.sessions session with
    | none => rfl
    | some entry => rw [hsessions session entry hsome] at hsession; cases hsession
  have hsome : ∀ session, (r'.sessions session).isSome → (r.sessions session).isSome := by
    intro session hsession
    obtain ⟨entry, hentry⟩ := Option.isSome_iff_exists.mp hsession
    rw [hsessions session entry hentry]
    rfl
  constructor
  · exact Nat.le_trans hcodes.length_le h.one_code
  · rw [hhistory]
    intro entry hentry
    exact h.code_live entry (hcodes.mem hentry)
  · rw [hcalls, hhistory, hidentity]
    exact h.calls_ok
  · rw [hhistory, hidentity]
    intro session entry hentry
    exact h.table_ok session entry (hsessions session entry hentry)
  · rw [hcalls]
    intro session hsession
    exact h.table_free session (hsome session hsession)
  · rw [hcalls]
    exact h.held_once
  · rw [hcalls, hhistory]
    exact h.callers
  · rw [hcalls, hhistory]
    exact h.unspent
  · rw [hcalls, hhistory]
    exact h.uncreated
  · rw [hcalls, hhistory]
    intro session hsession
    obtain ⟨htable, hheld, hcreated⟩ := h.gone session hsession
    exact ⟨hnone session htable, hheld, hcreated⟩
  · rw [hhistory]
    exact h.consumed_once
  · rw [hhistory]
    exact h.creator_once
  · rw [hhistory]
    exact h.created_once
  · rw [hhistory]
    exact h.closed_once
  · rw [hhistory]
    exact h.consumed_ok
  · rw [hhistory]
    exact h.created_ok
  · rw [hhistory, hidentity]
    exact h.revealed_ok
  · rw [hhistory, hidentity]
    exact h.records_ok

/-- A session that a call may hold: it is nowhere else and was not used up. -/
private structure Free (r : PairingResponder) (n : Nat) (session : String) : Prop where
  table : r.sessions session = none
  calls : ∀ i (call : Call), i ≠ n → r.calls[i]? = some call → call.holds ≠ some session
  open_ : session ∉ r.history.filterMap PairingEvent.closedSession

/-- One call is in a new place that agrees with the history, the others are where they were. -/
theorem Lawful.move (h : Lawful c r) {n : Nat} {new : Call} {calls : List Call}
    (hget : ∀ {i : Nat} {call : Call}, calls[i]? = some call →
      i = n ∧ call = new ∨ i ≠ n ∧ r.calls[i]? = some call)
    (hlength : r.calls.length ≤ calls.length) (hok : new.Ok c r.identity r.history n)
    (hholds : ∀ session, new.holds = some session → Free r n session)
    (hconsume : new.mayConsume → n ∉ r.history.filterMap PairingEvent.consumer)
    (hcreate : new.mayCreate → n ∉ r.history.filterMap PairingEvent.creator) :
    Lawful c { r with calls := calls } := by
  have hmem : ∀ {call : Call}, call ∈ calls → call = new ∨ call ∈ r.calls := by
    intro call hcall
    obtain ⟨i, hi⟩ := List.mem_iff_getElem?.mp hcall
    rcases hget hi with ⟨-, rfl⟩ | ⟨-, hold⟩
    · exact .inl rfl
    · exact .inr (List.mem_of_getElem? hold)
  refine ⟨h.one_code, h.code_live, ?_, h.table_ok, ?_, ?_, ?_, ?_, ?_, ?_, h.consumed_once,
    h.creator_once, h.created_once, h.closed_once, h.consumed_ok, h.created_ok, h.revealed_ok,
    h.records_ok⟩
  · intro i call hi
    rcases hget hi with ⟨rfl, rfl⟩ | ⟨-, hold⟩
    · exact hok
    · exact h.calls_ok i call hold
  · intro session hsession call hcall hheld
    rcases hmem hcall with rfl | hold
    · have htable : r.sessions session = none := (hholds session hheld).table
      rw [htable] at hsession
      cases hsession
    · exact h.table_free session hsession call hold hheld
  · intro i j call call' session hi hj hheld hheld'
    rcases hget hi with ⟨rfl, rfl⟩ | ⟨hin, hold⟩
    · rcases hget hj with ⟨rfl, -⟩ | ⟨hjn, hold'⟩
      · rfl
      · exact absurd hheld' ((hholds session hheld).calls j call' hjn hold')
    · rcases hget hj with ⟨rfl, rfl⟩ | ⟨hjn, hold'⟩
      · exact absurd hheld ((hholds session hheld').calls i call hin hold)
      · exact h.held_once i j call call' session hold hold' hheld hheld'
  · intro event hevent i hi
    exact Nat.lt_of_lt_of_le (h.callers event hevent i hi) hlength
  · intro i call hi hmay
    rcases hget hi with ⟨rfl, rfl⟩ | ⟨-, hold⟩
    · exact hconsume hmay
    · exact h.unspent i call hold hmay
  · intro i call hi hmay
    rcases hget hi with ⟨rfl, rfl⟩ | ⟨-, hold⟩
    · exact hcreate hmay
    · exact h.uncreated i call hold hmay
  · intro session hsession
    obtain ⟨htable, hheld, hcreated⟩ := h.gone session hsession
    refine ⟨htable, ?_, hcreated⟩
    intro call hcall hholds'
    rcases hmem hcall with rfl | hold
    · exact (hholds session hholds').open_ hsession
    · exact hheld call hold hholds'

/-- A call goes on to a place that agrees with the history. -/
theorem Lawful.goOn (h : Lawful c r) {n : Nat} {new : Call}
    (hok : new.Ok c r.identity r.history n)
    (hholds : ∀ session, new.holds = some session → Free r n session)
    (hconsume : new.mayConsume → n ∉ r.history.filterMap PairingEvent.consumer)
    (hcreate : new.mayCreate → n ∉ r.history.filterMap PairingEvent.creator) :
    Lawful c (r.goOn n new) := by
  refine h.move ?_ (List.length_set ..).ge hok hholds hconsume hcreate
  intro i call hi
  by_cases hin : i = n
  · subst hin
    have hlt := (List.getElem?_eq_some_iff.mp hi).1
    rw [List.length_set] at hlt
    rw [List.getElem?_set_self hlt, Option.some.injEq] at hi
    exact .inl ⟨rfl, hi.symm⟩
  · rw [List.getElem?_set_ne (Ne.symm hin)] at hi
    exact .inr ⟨hin, hi⟩

/-- A call that was not there before has no events. -/
theorem Lawful.fresh (h : Lawful c r) {f : PairingEvent → Option Nat}
    (hf : ∀ event n, f event = some n → event.caller = some n) :
    r.calls.length ∉ r.history.filterMap f := by
  intro hmem
  obtain ⟨event, hevent, hn⟩ := List.mem_filterMap.mp hmem
  exact Nat.lt_irrefl _ (h.callers event hevent _ (hf event _ hn))

private theorem caller_of_consumer (event : PairingEvent) (n : Nat)
    (h : event.consumer = some n) : event.caller = some n := by
  cases event <;> first | exact h | cases h

private theorem caller_of_creator (event : PairingEvent) (n : Nat)
    (h : event.creator = some n) : event.caller = some n := by
  cases event <;> first | exact h | cases h

/-- A new call in a place that agrees with the history. -/
theorem Lawful.begin (h : Lawful c r) {new : Call}
    (hok : new.Ok c r.identity r.history r.calls.length)
    (hholds : ∀ session, new.holds = some session → Free r r.calls.length session) :
    Lawful c (r.begin new) := by
  refine h.move ?_ (by simp) hok hholds (fun _ ↦ h.fresh caller_of_consumer)
    (fun _ ↦ h.fresh caller_of_creator)
  intro i call hi
  rw [List.getElem?_append] at hi
  split at hi
  · next hlt => exact .inr ⟨Nat.ne_of_lt hlt, hi⟩
  · next hge =>
    rw [List.getElem?_singleton] at hi
    split at hi
    · next hzero => exact .inl ⟨by omega, (Option.some.inj hi).symm⟩
    · cases hi

/-- A call that returns no record needs nothing. -/
theorem Lawful.return (h : Lawful c r) (n : Nat) {result : Except LinkError Reply}
    (hresult : ∀ record, result ≠ .ok (.confirm (some record))) :
    Lawful c (r.goOn n (.returned result)) :=
  h.goOn (fun record hrecord ↦ absurd hrecord (hresult record)) (fun _ hholds ↦ by cases hholds) (fun hmay ↦ by cases hmay) fun hmay ↦ by cases hmay

/-- A call that returns no record at once needs nothing. -/
theorem Lawful.returnAtOnce (h : Lawful c r) {result : Except LinkError Reply}
    (hresult : ∀ record, result ≠ .ok (.confirm (some record))) :
    Lawful c (r.begin (.returned result)) :=
  h.begin (fun record hrecord ↦ absurd hrecord (hresult record)) fun _ hholds ↦ by cases hholds

/-- A session is put into the table. -/
theorem Lawful.insert (h : Lawful c r) {session : String} {entry : ConfirmEntry} {o : Origin}
    (htraced : Traced c r.identity r.history session entry o)
    (hheld : ∀ call ∈ r.calls, call.holds ≠ some session)
    (hopen : session ∉ r.history.filterMap PairingEvent.closedSession) :
    Lawful c { r with sessions := Function.update r.sessions session (some entry) } := by
  refine ⟨h.one_code, h.code_live, h.calls_ok, ?_, ?_, h.held_once, h.callers, h.unspent,
    h.uncreated, ?_, h.consumed_once, h.creator_once, h.created_once, h.closed_once, h.consumed_ok,
    h.created_ok, h.revealed_ok, h.records_ok⟩
  · intro session' entry' hentry
    change Function.update r.sessions session (some entry) session' = _ at hentry
    rw [Function.update_apply] at hentry
    split at hentry
    · next hsame =>
      cases hentry
      exact ⟨o, hsame ▸ htraced⟩
    · exact h.table_ok session' entry' hentry
  · intro session' hsession call hcall hholds
    change (Function.update r.sessions session (some entry) session').isSome at hsession
    rw [Function.update_apply] at hsession
    split at hsession
    · next hsame => exact hheld call hcall (hsame ▸ hholds)
    · exact h.table_free session' hsession call hcall hholds
  · intro session' hsession
    obtain ⟨htable, hnone, hcreated⟩ := h.gone session' hsession
    refine ⟨?_, hnone, hcreated⟩
    change Function.update r.sessions session (some entry) session' = none
    rw [Function.update_of_ne, htable]
    rintro rfl
    exact hopen hsession

/-- What an event may say, so that it can be written down. -/
private structure Sayable (c : Primitives) (r : PairingResponder) (event : PairingEvent) : Prop where
  caller : ∀ n, event.caller = some n → n < r.calls.length
  codes : event.onCodes → r.codes = []
  consumer : ∀ n, event.consumer = some n → n ∉ r.history.filterMap PairingEvent.consumer ∧
    (∀ call : Call, r.calls[n]? = some call → call.mayConsume = false) ∧
    ∀ req time, event = .consumed n req time →
      ∃ addrs position, req.Genuine c addrs ∧ UsedUp (r.history ++ [event]) position n req
  creator : ∀ n, event.creator = some n → n ∉ r.history.filterMap PairingEvent.creator ∧
    ∀ call : Call, r.calls[n]? = some call → call.mayCreate = false
  created : ∀ session, event.createdSession = some session →
    session ∉ r.history.filterMap PairingEvent.createdSession ∧
      ∃ o : Origin, o.Sound c (r.history ++ [event]) session
  closed : ∀ session, event.closedSession = some session →
    session ∉ r.history.filterMap PairingEvent.closedSession ∧ r.sessions session = none ∧
      (∀ call ∈ r.calls, call.holds ≠ some session) ∧
      session ∈ r.history.filterMap PairingEvent.createdSession
  revealed : ∀ session (v : Revelation), event = v.event session →
    ∃ o : Origin, o.Sound c (r.history ++ [event]) session ∧ v.Matches c r.identity session o ∧
      [o.event session, v.event session].Sublist (r.history ++ [event])
  recorded : ∀ session record, event = .recorded session record →
    ∃ o v, Authorised c r.identity (r.history ++ [event]) session record o v

private theorem nodup_filterMap_concat {α β : Type*} {f : α → Option β} {l : List α} {a : α}
    (h : (l.filterMap f).Nodup) (hnew : ∀ b, f a = some b → b ∉ l.filterMap f) :
    ((l ++ [a]).filterMap f).Nodup := by
  rw [List.filterMap_append]
  cases hb : f a with
  | none => simpa [hb] using h
  | some b =>
    have hnot := hnew b hb
    simp only [List.filterMap_cons, hb, List.filterMap_nil]
    exact List.nodup_append.mpr ⟨h, List.nodup_singleton b, by
      rintro x hx y hy rfl
      exact hnot (List.mem_singleton.mp hy ▸ hx)⟩

/-- What a list with one more element says. -/
theorem mem_filterMap_concat {α β : Type*} {f : α → Option β} {l : List α} {a : α} {b : β} :
    b ∈ (l ++ [a]).filterMap f ↔ b ∈ l.filterMap f ∨ f a = some b := by
  rw [List.filterMap_append, List.mem_append]
  cases hfa : f a with
  | none => simp [hfa]
  | some b' => simp [hfa, eq_comm]

/-- An event is written down. -/
theorem Lawful.note (h : Lawful c r) {event : PairingEvent} (hsay : Sayable c r event) :
    Lawful c (r.note event) := by
  constructor
  · exact h.one_code
  · intro entry hentry
    by_cases honCodes : event.onCodes = true
    · rw [show (r.note event).codes = [] from hsay.codes honCodes] at hentry
      cases hentry
    · obtain ⟨before, between, hhistory, hbetween⟩ := h.code_live entry hentry
      refine ⟨before, between ++ [event], ?_, ?_⟩
      · change r.history ++ [event] = _
        rw [hhistory]
        simp
      · intro e he
        rw [List.mem_append, List.mem_singleton] at he
        rcases he with he | rfl
        · exact hbetween e he
        · exact Bool.eq_false_of_not_eq_true honCodes
  · intro n call hcall
    exact (h.calls_ok n call hcall).grow event
  · intro session entry hentry
    obtain ⟨o, htraced⟩ := h.table_ok session entry hentry
    exact ⟨o, htraced.grow event⟩
  · exact h.table_free
  · exact h.held_once
  · intro e he n hn
    rcases List.mem_append.mp he with hold | hnew
    · exact h.callers e hold n hn
    · rw [List.mem_singleton.mp hnew] at hn
      exact hsay.caller n hn
  · intro n call hcall hmay hmem
    rcases mem_filterMap_concat.mp hmem with hold | hnew
    · exact h.unspent n call hcall hmay hold
    · rw [(hsay.consumer n hnew).2.1 call hcall] at hmay
      cases hmay
  · intro n call hcall hmay hmem
    rcases mem_filterMap_concat.mp hmem with hold | hnew
    · exact h.uncreated n call hcall hmay hold
    · rw [(hsay.creator n hnew).2 call hcall] at hmay
      cases hmay
  · intro session hsession
    rcases mem_filterMap_concat.mp hsession with hold | hnew
    · obtain ⟨htable, hheld, hcreated⟩ := h.gone session hold
      exact ⟨htable, hheld, mem_filterMap_concat.mpr (.inl hcreated)⟩
    · obtain ⟨-, htable, hheld, hcreated⟩ := hsay.closed session hnew
      exact ⟨htable, hheld, mem_filterMap_concat.mpr (.inl hcreated)⟩
  · exact nodup_filterMap_concat h.consumed_once fun n hn ↦ (hsay.consumer n hn).1
  · exact nodup_filterMap_concat h.creator_once fun n hn ↦ (hsay.creator n hn).1
  · exact nodup_filterMap_concat h.created_once fun session hs ↦ (hsay.created session hs).1
  · exact nodup_filterMap_concat h.closed_once fun session hs ↦ (hsay.closed session hs).1
  · intro n req time hmem
    rcases List.mem_append.mp hmem with hold | hnew
    · obtain ⟨addrs, position, hgenuine, husedUp⟩ := h.consumed_ok n req time hold
      exact ⟨addrs, position, hgenuine, husedUp.grow event⟩
    · have hevent := List.mem_singleton.mp hnew
      exact (hsay.consumer n (by rw [← hevent]; rfl)).2.2 req time hevent.symm
  · intro session hsession
    rcases mem_filterMap_concat.mp hsession with hold | hnew
    · obtain ⟨o, hsound⟩ := h.created_ok session hold
      exact ⟨o, hsound.grow event⟩
    · exact (hsay.created session hnew).2
  · intro session v hmem
    rcases List.mem_append.mp hmem with hold | hnew
    · obtain ⟨o, hsound, hmatches, horder⟩ := h.revealed_ok session v hold
      exact ⟨o, hsound.grow event, hmatches, sublist_grow event horder⟩
    · exact hsay.revealed session v (List.mem_singleton.mp hnew).symm
  · intro session record hmem
    rcases List.mem_append.mp hmem with hold | hnew
    · obtain ⟨o, v, hauthorised⟩ := h.records_ok session record hold
      exact ⟨o, v, hauthorised.grow event⟩
    · exact hsay.recorded session record (List.mem_singleton.mp hnew).symm

/-- An event that concerns no code and no life of a session. -/
theorem Sayable.plain {event : PairingEvent}
    (hcaller : ∀ n, event.caller = some n → n < r.calls.length) (hcodes : event.onCodes = false)
    (hconsumer : event.consumer = none) (hcreator : event.creator = none)
    (hcreated : event.createdSession = none) (hclosed : event.closedSession = none)
    (hreveal : event.isReveal = false) : Sayable c r event := by
  refine ⟨hcaller, ?_, ?_, ?_, ?_, ?_, ?_, ?_⟩
  · rw [hcodes]
    intro h
    cases h
  · rw [hconsumer]
    intro _ h
    cases h
  · rw [hcreator]
    intro _ h
    cases h
  · rw [hcreated]
    intro _ h
    cases h
  · rw [hclosed]
    intro _ h
    cases h
  · rintro session v rfl
    cases hreveal
  · rintro session record rfl
    cases hclosed

/-- What a call holds is nowhere else. -/
theorem Lawful.free_of_holds (h : Lawful c r) {n : Nat} {call : Call} {session : String}
    (hcall : r.calls[n]? = some call) (hholds : call.holds = some session) : Free r n session := by
  have hmem := List.mem_of_getElem? hcall
  refine ⟨?_, ?_, ?_⟩
  · by_contra htable
    exact h.table_free session (Option.isSome_iff_ne_none.mpr htable) call hmem hholds
  · intro i call' hin hi hholds'
    exact hin (h.held_once i n call' call session hi hcall hholds' hholds)
  · intro hclosed
    exact (h.gone session hclosed).2.1 call hmem hholds

/-- A session in the table was not used up. -/
theorem Lawful.open_of_table (h : Lawful c r) {session : String}
    (htable : (r.sessions session).isSome) :
    session ∉ r.history.filterMap PairingEvent.closedSession := by
  intro hclosed
  rw [(h.gone session hclosed).1] at htable
  cases htable

/-- A session in the table was created. -/
theorem Lawful.created_of_table (h : Lawful c r) {session : String} {entry : ConfirmEntry}
    (htable : r.sessions session = some entry) :
    session ∈ r.history.filterMap PairingEvent.createdSession := by
  obtain ⟨o, htraced⟩ := h.table_ok session entry htable
  exact List.mem_filterMap.mpr ⟨_, htraced.sound.created, rfl⟩

private theorem goOn_note_goOn (n : Nat) (call new : Call) (event : PairingEvent) :
    ((r.goOn n call).note event).goOn n new = (r.note event).goOn n new := by
  simp [PairingResponder.goOn, PairingResponder.note, List.set_set]

/-- A session that outlives pruning was there. -/
theorem pruneSessions_some {now : Nat} {sessions : Sessions} {session : String}
    {entry : ConfirmEntry} (h : pruneSessions now sessions session = some entry) :
    sessions session = some entry := by
  rw [pruneSessions, Option.filter_eq_some_iff] at h
  exact h.1

private theorem Lawful.prune (h : Lawful c r) :
    Lawful c { r with sessions := pruneSessions r.clock r.sessions } :=
  h.restrict (List.Sublist.refl _) (fun _ _ ↦ pruneSessions_some) rfl rfl rfl

/-- Taking a session out of the table. -/
theorem Lawful.remove (h : Lawful c r) (session : String) :
    Lawful c { r with sessions := Function.update r.sessions session none } := by
  refine h.restrict (List.Sublist.refl _) ?_ rfl rfl rfl
  intro session' entry hentry
  change Function.update r.sessions session none session' = _ at hentry
  rw [Function.update_apply] at hentry
  split at hentry
  · cases hentry
  · exact hentry

private theorem length_validateInitiatorAddrs {given addrs : List String}
    (h : validateInitiatorAddrs given = .ok addrs) : addrs.length ≤ maxDirectCandidates := by
  have hfold : ∀ (given canonical : List String),
      given.foldlM (fun canonical addr ↦ (canonicalAddr addr).map (addCanonical canonical))
        canonical = .ok addrs → addrs.length ≤ canonical.length + given.length := by
    intro given
    induction given with
    | nil =>
      intro canonical h
      cases h
      exact Nat.le_refl _
    | cons addr given ih =>
      intro canonical h
      rw [List.foldlM_cons] at h
      cases haddr : canonicalAddr addr with
      | error e => rw [haddr] at h; cases h
      | ok candidate =>
        rw [haddr] at h
        have hrest := ih _ h
        have hadd : (addCanonical canonical candidate).length ≤ canonical.length + 1 := by
          unfold addCanonical
          split
          · exact Nat.le_succ _
          · rw [List.length_append, List.length_singleton]
        rw [List.length_cons]
        omega
  unfold validateInitiatorAddrs at h
  split at h
  · cases h
  · next hfew =>
    have hlength := hfold given [] h
    rw [List.length_nil] at hlength
    omega

/-- Events of a list that say the same of something said once are the same. -/
theorem eq_of_nodup_filterMap {α β : Type*} {f : α → Option β} {l : List α} {a b : α} {x : β}
    (h : (l.filterMap f).Nodup) (ha : a ∈ l) (hb : b ∈ l) (hfa : f a = some x)
    (hfb : f b = some x) : a = b := by
  induction l with
  | nil => cases ha
  | cons first l ih =>
    rw [List.filterMap_cons] at h
    have hmem : ∀ {y : α}, y ∈ l → f y = some x → x ∈ l.filterMap f :=
      fun hy hfy ↦ List.mem_filterMap.mpr ⟨_, hy, hfy⟩
    rcases List.mem_cons.mp ha with rfl | harest
    · rcases List.mem_cons.mp hb with rfl | hbrest
      · rfl
      · rw [hfa] at h
        exact absurd (hmem hbrest hfb) (List.nodup_cons.mp h).1
    · rcases List.mem_cons.mp hb with rfl | hbrest
      · rw [hfb] at h
        exact absurd (hmem harest hfa) (List.nodup_cons.mp h).1
      · apply ih _ harest hbrest
        split at h
        · exact h
        · exact (List.nodup_cons.mp h).2

/-- A session has one hello. -/
theorem Lawful.origin_eq (h : Lawful c r) {session : String} {o o' : Origin}
    (ho : o.event session ∈ r.history) (ho' : o'.event session ∈ r.history) :
    o'.event session = o.event session :=
  eq_of_nodup_filterMap h.created_once ho' ho rfl rfl

private theorem matches_of_event {identity : LinkIdentity} {session : String} {o o' : Origin}
    {v : Revelation} (h : v.Matches c identity session o') (heq : o'.event session = o.event session) :
    v.Matches c identity session o := by
  obtain ⟨call, position, req, me, addrs, time⟩ := o
  obtain ⟨call', position', req', me', addrs', time'⟩ := o'
  simp only [Origin.event, PairingEvent.created.injEq, true_and] at heq
  obtain ⟨rfl, rfl, rfl, rfl⟩ := heq
  exact ⟨h.session_eq, h.in_time, h.opens, h.transcript_eq⟩

private theorem event_inj {v v' : Revelation} {session session' : String}
    (h : v.event session = v'.event session') : v = v' ∧ session = session' := by
  cases v
  cases v'
  cases h
  exact ⟨rfl, rfl⟩

/-! ## Sections keep the invariant -/

/-- A new session gets an id that no session had before. -/
def FreshSession (r : PairingResponder) : PairingOp → Prop
  | .advance n draw => ∀ call ∈ r.calls[n]?, call.isNamed →
    draw.sessionId ∉ r.history.filterMap PairingEvent.createdSession
  | _ => True

instance (r : PairingResponder) : ∀ op, Decidable (FreshSession r op)
  | .advance n draw => inferInstanceAs (Decidable (∀ call ∈ r.calls[n]?, call.isNamed →
      draw.sessionId ∉ r.history.filterMap PairingEvent.createdSession))
  | .tick _ | .generateCode _ | .revokeCodes | .setSelfInfo _ | .hello _ _ | .reveal _
  | .setLocalDecision _ _ | .confirm _ _ | .timeOut _ | .pruneCodes | .pruneSessions
  | .pruneFailures => inferInstanceAs (Decidable True)

private theorem lawful_generateCode (h : Lawful c r) (n : Nat) : Lawful c (r.generateCode n) := by
  have hempty : Lawful c { r with codes := [] } :=
    h.restrict (List.nil_sublist _) (fun _ _ hentry ↦ hentry) rfl rfl rfl
  have hsay : Sayable c { r with codes := [] } (.generated (padDigits 6 (n % 1000000)) r.clock) :=
    ⟨(fun _ hn ↦ by cases hn), (fun _ ↦ rfl), (fun _ hn ↦ by cases hn), (fun _ hn ↦ by cases hn),
      (fun _ hs ↦ by cases hs), (fun _ hs ↦ by cases hs), (fun _ _ he ↦ by cases he), fun _ _ he ↦ by cases he⟩
  refine { hempty.note hsay with one_code := Nat.le_refl _, code_live := ?_ }
  intro entry hentry
  rw [show (r.generateCode n).codes = [⟨padDigits 6 (n % 1000000), r.clock⟩] from rfl,
    List.mem_singleton] at hentry
  subst hentry
  exact ⟨r.history, [], rfl, fun _ he ↦ by cases he⟩

private theorem lawful_revokeCodes (h : Lawful c r) : Lawful c r.revokeCodes := by
  have hempty : Lawful c { r with codes := [] } :=
    h.restrict (List.nil_sublist _) (fun _ _ hentry ↦ hentry) rfl rfl rfl
  exact hempty.note ⟨(fun _ hn ↦ by cases hn), (fun _ ↦ rfl), (fun _ hn ↦ by cases hn),
    (fun _ hn ↦ by cases hn), (fun _ hs ↦ by cases hs), (fun _ hs ↦ by cases hs),
    (fun _ _ he ↦ by cases he), fun _ _ he ↦ by cases he⟩

private theorem lawful_handleHello (h : Lawful c r) (req : HelloRequest) (source : Option IpAddr) :
    Lawful c (r.handleHello req source) := by
  unfold PairingResponder.handleHello
  split
  · exact h.returnAtOnce fun _ he ↦ by cases he
  · next hversion =>
    split
    · exact h.returnAtOnce fun _ he ↦ by cases he
    · next addrs haddrs =>
      have hpruned : Lawful c { r with failures := pruneFailures r.clock r.failures } :=
        h.restrict (List.Sublist.refl _) (fun _ _ hentry ↦ hentry) rfl rfl rfl
      simp only
      split
      · exact hpruned.returnAtOnce fun _ he ↦ by cases he
      · exact hpruned.begin ⟨not_not.mp hversion, haddrs⟩ fun _ hholds ↦ by cases hholds

private theorem lawful_helloLookup (h : Lawful c r) {n : Nat} {req : HelloRequest}
    {addrs : List String} {source : Option IpAddr}
    (hcall : r.calls[n]? = some (.helloAllowed req addrs source)) :
    Lawful c (r.helloLookup c n req addrs source) := by
  have hpruned : Lawful c { r with codes := pruneCodes r.clock r.codes } :=
    h.restrict List.filter_sublist (fun _ _ hentry ↦ hentry) rfl rfl rfl
  have hnoted : ∀ found, Lawful c ({ r with codes := pruneCodes r.clock r.codes }.note
      (.compared n (failureBucketKey source) found r.clock)) := by
    intro found
    apply hpruned.note
    refine Sayable.plain ?_ rfl rfl rfl rfl rfl rfl
    intro i hi
    cases hi
    exact (List.getElem?_eq_some_iff.mp hcall).1
  have hfailed : ∀ found error, Lawful c (({ r with codes := pruneCodes r.clock r.codes }.note
      (.compared n (failureBucketKey source) found r.clock)).goOn n (.helloFailed source error)) :=
    fun found error ↦ (hnoted found).goOn trivial (fun _ hholds ↦ by cases hholds)
      (fun hmay ↦ by cases hmay) fun hmay ↦ by cases hmay
  unfold PairingResponder.helloLookup
  split
  · exact h.return n fun _ he ↦ by cases he
  · simp only
    split
    · exact hfailed _ _
    · split
      · exact hfailed _ _
      · next hsigned =>
        refine (hnoted _).goOn ⟨h.calls_ok n _ hcall, ?_⟩ (fun _ hholds ↦ by cases hholds) ?_ ?_
        · simpa using hsigned
        · intro _ hmem
          rcases mem_filterMap_concat.mp hmem with hold | hnew
          · exact h.unspent n _ hcall rfl hold
          · cases hnew
        · intro _ hmem
          rcases mem_filterMap_concat.mp hmem with hold | hnew
          · exact h.uncreated n _ hcall rfl hold
          · cases hnew

/-- The only code in the table is the one that is found. -/
theorem eq_singleton_of_findIdx? {codes : List CodeEntry} {p : CodeEntry → Bool} {pos : Nat}
    (hone : codes.length ≤ 1) (hpos : codes.findIdx? p = some pos) :
    pos = 0 ∧ ∃ entry, codes = [entry] ∧ p entry = true := by
  match codes, hone with
  | [], _ => cases hpos
  | [entry], _ =>
    rw [List.findIdx?_cons] at hpos
    split at hpos
    · next hentry =>
      rw [Option.some.injEq] at hpos
      exact ⟨hpos.symm, entry, rfl, hentry⟩
    · cases hpos

private theorem lawful_helloConsume (h : Lawful c r) {n : Nat} {req : HelloRequest}
    {addrs : List String} (hcall : r.calls[n]? = some (.helloVerified req addrs)) :
    Lawful c (r.helloConsume n req addrs) := by
  have hpruned : Lawful c { r with codes := pruneCodes r.clock r.codes } :=
    h.restrict List.filter_sublist (fun _ _ hentry ↦ hentry) rfl rfl rfl
  unfold PairingResponder.helloConsume
  simp only
  split
  · exact hpruned.return n fun _ he ↦ by cases he
  · next pos hpos =>
    obtain ⟨rfl, entry, hcodes, hcode⟩ := eq_singleton_of_findIdx? hpruned.one_code hpos
    have hempty : Lawful c { r with codes := (pruneCodes r.clock r.codes).eraseIdx 0 } :=
      h.restrict ((List.eraseIdx_sublist ..).trans List.filter_sublist) (fun _ _ hentry ↦ hentry)
        rfl rfl rfl
    have hgenuine : req.Genuine c addrs := h.calls_ok n _ hcall
    have husedUp : ∃ position, UsedUp (r.history ++ [.consumed n req r.clock]) position n req := by
      have hmem : entry ∈ pruneCodes r.clock r.codes := by
        rw [show pruneCodes r.clock r.codes = [entry] from hcodes]
        exact List.mem_singleton_self entry
      rw [pruneCodes, List.mem_filter] at hmem
      obtain ⟨before, between, hhistory, hbetween⟩ := h.code_live entry hmem.1
      refine ⟨before.length, before, between, [], entry.created, r.clock, rfl, ?_, hbetween, ?_⟩
      · rw [hhistory, ← eq_of_beq hcode]
        simp
      · simpa using hmem.2
    have hsay : Sayable c ({ r with codes := (pruneCodes r.clock r.codes).eraseIdx 0 }.goOn n
        (.returned (.error .invalidCode))) (.consumed n req r.clock) := by
      refine ⟨?_, ?_, ?_, (fun _ hn ↦ by cases hn), (fun _ hs ↦ by cases hs),
        (fun _ hs ↦ by cases hs), (fun _ _ he ↦ by cases he), fun _ _ he ↦ by cases he⟩
      · intro i hi
        cases hi
        change n < (r.calls.set n _).length
        rw [List.length_set]
        exact (List.getElem?_eq_some_iff.mp hcall).1
      · intro _
        change (pruneCodes r.clock r.codes).eraseIdx 0 = []
        rw [show pruneCodes r.clock r.codes = [entry] from hcodes]
        rfl
      · intro i hi
        cases hi
        refine ⟨h.unspent n _ hcall rfl, ?_, ?_⟩
        · intro call hget
          change (r.calls.set n _)[n]? = some call at hget
          rw [List.getElem?_set_self (List.getElem?_eq_some_iff.mp hcall).1] at hget
          cases hget
          rfl
        · intro req' time' he
          cases he
          obtain ⟨position, husedUp⟩ := husedUp
          exact ⟨addrs, position, hgenuine, husedUp⟩
    have hnoted := (hempty.return n fun _ he ↦ by cases he).note hsay
    have hdone : Lawful c ((({ r with codes := (pruneCodes r.clock r.codes).eraseIdx 0 }.goOn n
        (.returned (.error .invalidCode))).note (.consumed n req r.clock)).goOn n
        (.helloConsumed req addrs)) := by
      refine hnoted.goOn ⟨hgenuine, husedUp⟩ (fun _ hholds ↦ by cases hholds)
        (fun hmay ↦ by cases hmay) ?_
      intro _ hmem
      rcases mem_filterMap_concat.mp hmem with hold | hnew
      · exact h.uncreated n _ hcall rfl hold
      · cases hnew
    rwa [goOn_note_goOn] at hdone

private theorem lawful_helloCreate (h : Lawful c r) {n : Nat} {req : HelloRequest}
    {addrs : List String} {me : SelfInfo} {draw : Draw}
    (hcall : r.calls[n]? = some (.helloNamed req addrs me))
    (hfresh : draw.sessionId ∉ r.history.filterMap PairingEvent.createdSession) :
    Lawful c (r.helloCreate c n req addrs me draw) := by
  obtain ⟨hgenuine, position, husedUp⟩ := h.calls_ok n _ hcall
  let o : Origin := ⟨n, position, req, me, addrs, r.clock⟩
  have hsound : o.Sound c (r.history ++ [o.event draw.sessionId]) draw.sessionId :=
    ⟨by simp, husedUp.grow _, hgenuine⟩
  have hreturned : Lawful c ({ r with sessions := pruneSessions r.clock r.sessions }.goOn n
      (.returned (.ok (.hello (r.helloResponse c me draw))))) :=
    h.prune.return n fun _ he ↦ by cases he
  have hsay : Sayable c ({ r with sessions := pruneSessions r.clock r.sessions }.goOn n
      (.returned (.ok (.hello (r.helloResponse c me draw)))))
      (.created n draw.sessionId req me r.clock) := by
    refine ⟨?_, (fun hon ↦ by cases hon), (fun _ hn ↦ by cases hn), ?_, ?_,
      (fun _ hs ↦ by cases hs), (fun _ _ he ↦ by cases he), fun _ _ he ↦ by cases he⟩
    · intro i hi
      cases hi
      change n < (r.calls.set n _).length
      rw [List.length_set]
      exact (List.getElem?_eq_some_iff.mp hcall).1
    · intro i hi
      cases hi
      refine ⟨h.uncreated n _ hcall rfl, ?_⟩
      intro call hget
      change (r.calls.set n _)[n]? = some call at hget
      rw [List.getElem?_set_self (List.getElem?_eq_some_iff.mp hcall).1] at hget
      cases hget
      rfl
    · intro session hsession
      cases hsession
      exact ⟨hfresh, o, hsound⟩
  have hnoted := hreturned.note hsay
  have htraced : Traced c r.identity (r.history ++ [o.event draw.sessionId]) draw.sessionId
      (PairingResponder.entryOf c req addrs me draw r.clock) o :=
    { sound := hsound
      created_eq := rfl
      identity_eq := rfl
      addrs_eq := rfl
      control_eq := rfl
      stage := ⟨rfl, rfl, rfl⟩ }
  refine hnoted.insert htraced ?_ ?_
  · intro call hmem hholds
    rcases List.mem_or_eq_of_mem_set hmem with hold | rfl
    · obtain ⟨i, hi⟩ := List.mem_iff_getElem?.mp hold
      have hok := h.calls_ok i call hi
      cases call with
      | revealTaken req' entry =>
        obtain ⟨o', htraced', -⟩ := hok
        exact hfresh (List.mem_filterMap.mpr ⟨_, htraced'.sound.created, hholds⟩)
      | revealChecked req' entry z transcriptHash accepted =>
        obtain ⟨o', v, htraced', -⟩ := hok
        exact hfresh (List.mem_filterMap.mpr ⟨_, htraced'.sound.created, hholds⟩)
      | _ => cases hholds
    · cases hholds
  · intro hclosed
    rcases mem_filterMap_concat.mp hclosed with hold | hnew
    · exact hfresh (h.gone _ hold).2.2
    · cases hnew

private theorem lawful_handleReveal (h : Lawful c r) (req : RevealRequest) :
    Lawful c (r.handleReveal req) := by
  have hpruned := h.prune
  unfold PairingResponder.handleReveal
  simp only
  split
  · exact hpruned.returnAtOnce fun _ he ↦ by cases he
  · next entry hentry =>
    split
    · next commit ephSecret nonce helloDigest infoDigest hstage =>
      have htable : (pruneSessions r.clock r.sessions req.sessionId).isSome := by rw [hentry]; rfl
      refine (hpruned.remove req.sessionId).begin ?_ ?_
      · obtain ⟨o, htraced⟩ := hpruned.table_ok _ _ hentry
        refine ⟨o, htraced, ?_⟩
        intro z transcriptHash announced decision hrevealed
        rw [hstage] at hrevealed
        cases hrevealed
      · intro session hholds
        cases hholds
        refine ⟨Function.update_self .., ?_, hpruned.open_of_table htable⟩
        intro i call _ hi
        exact hpruned.table_free _ htable call (List.mem_of_getElem? hi)
    · exact hpruned.returnAtOnce fun _ he ↦ by cases he

private theorem lawful_revealCheck (h : Lawful c r) {n : Nat} {req : RevealRequest}
    {entry : ConfirmEntry} (hcall : r.calls[n]? = some (.revealTaken req entry)) :
    Lawful c (r.revealCheck c n req entry) := by
  unfold PairingResponder.revealCheck
  split
  · exact h.return n fun _ he ↦ by cases he
  · next commit ephSecret nonce helloDigest infoDigest hstage =>
    split
    · exact h.return n fun _ he ↦ by cases he
    · next htime =>
      split
      · exact h.return n fun _ he ↦ by cases he
      · next hopens =>
        simp only
        split
        · exact h.return n fun _ he ↦ by cases he
        · obtain ⟨o, htraced, -⟩ := h.calls_ok n _ hcall
          have hfree : Free r n req.sessionId := h.free_of_holds hcall rfl
          have hstageOk := htraced.stage
          rw [hstage] at hstageOk
          obtain ⟨rfl, rfl, rfl⟩ := hstageOk
          let transcript := PairingResponder.transcriptOf c r.identity req entry.initiatorIdPub
            ephSecret nonce (hashTranscript c (helloMessage o.req))
            (responderInfoDigest c o.me.name o.me.platform o.me.appVersion)
          let v : Revelation :=
            ⟨req, c.diffieHellman ephSecret req.initiatorEphPub, transcript, r.clock⟩
          have hmatches : v.Matches c r.identity req.sessionId o := by
            refine ⟨rfl, ?_, ?_, ephSecret, nonce, rfl, ?_⟩
            · change r.clock ≤ o.time + revealTimeout
              rw [htraced.created_eq] at htime
              omega
            · simpa using hopens
            · change transcript = _
              rw [← htraced.identity_eq]
          have horder : [o.event req.sessionId, v.event req.sessionId].Sublist
              (r.history ++ [v.event req.sessionId]) :=
            (List.singleton_sublist.mpr htraced.sound.created).append (List.Sublist.refl [_])
          have hsay : Sayable c (r.goOn n (.returned (.error .sessionExpired)))
              (v.event req.sessionId) := by
            refine ⟨(fun _ hn ↦ by cases hn), (fun hon ↦ by cases hon), (fun _ hn ↦ by cases hn),
              (fun _ hn ↦ by cases hn), (fun _ hs ↦ by cases hs), (fun _ hs ↦ by cases hs), ?_,
              fun _ _ he ↦ by cases he⟩
            intro session v' he
            obtain ⟨rfl, rfl⟩ := event_inj he
            exact ⟨o, htraced.sound.grow _, hmatches, horder⟩
          rw [← goOn_note_goOn n (.returned (.error .sessionExpired))]
          have hnoted := (h.return n fun _ he ↦ by cases he).note hsay
          refine hnoted.goOn ⟨o, v, htraced.grow _, hmatches, rfl, rfl, horder⟩ ?_
            (fun hmay ↦ by cases hmay) fun hmay ↦ by cases hmay
          intro session hholds
          cases hholds
          refine ⟨hfree.table, ?_, ?_⟩
          · intro i call hin hi
            change (r.calls.set n _)[i]? = some call at hi
            rw [List.getElem?_set_ne (Ne.symm hin)] at hi
            exact hfree.calls i call hin hi
          · intro hclosed
            rcases mem_filterMap_concat.mp hclosed with hold | hnew
            · exact hfree.open_ hold
            · cases hnew

private theorem lawful_revealPutBack (h : Lawful c r) {n : Nat} {req : RevealRequest}
    {entry : ConfirmEntry} {z transcriptHash : Bytes32} {accepted : RevealAccepted}
    (hcall : r.calls[n]? = some (.revealChecked req entry z transcriptHash accepted)) :
    Lawful c (r.revealPutBack n req entry z transcriptHash accepted) := by
  obtain ⟨o, v, htraced, hmatches, hz, hhash, horder⟩ := h.calls_ok n _ hcall
  have hfree : Free r n req.sessionId := h.free_of_holds hcall rfl
  have hreturned : Lawful c (r.goOn n (.returned (.ok (.reveal accepted)))) :=
    h.return n fun _ he ↦ by cases he
  have htraced' : Traced c r.identity r.history req.sessionId
      { entry with stage := .revealed z transcriptHash r.clock none } o :=
    { htraced with stage := ⟨v, hmatches, hz, hhash, horder, fun hdecided ↦ by cases hdecided⟩ }
  refine hreturned.insert htraced' ?_ hfree.open_
  intro call hmem hholds
  obtain ⟨i, hi⟩ := List.mem_iff_getElem?.mp hmem
  change (r.calls.set n _)[i]? = some call at hi
  by_cases hin : i = n
  · subst hin
    rw [List.getElem?_set_self (List.getElem?_eq_some_iff.mp hcall).1] at hi
    cases hi
    cases hholds
  · rw [List.getElem?_set_ne (Ne.symm hin)] at hi
    exact hfree.calls i call hin hi hholds

private theorem lawful_setLocalDecision (h : Lawful c r) (session : String) (accept : Bool) :
    Lawful c (r.setLocalDecision session accept) := by
  have hpruned := h.prune
  unfold PairingResponder.setLocalDecision
  simp only
  split
  · exact hpruned
  · next entry hentry =>
    split
    · exact hpruned
    · next z transcriptHash announced decision hstage =>
      have htable : (pruneSessions r.clock r.sessions session).isSome := by rw [hentry]; rfl
      obtain ⟨o, htraced⟩ := hpruned.table_ok _ _ hentry
      have hstageOk := htraced.stage
      rw [hstage] at hstageOk
      obtain ⟨v, hmatches, hz, hhash, horder, -⟩ := hstageOk
      have hsay : Sayable c { r with sessions := pruneSessions r.clock r.sessions }
          (.decided session accept) :=
        Sayable.plain (fun _ hn ↦ by cases hn) rfl rfl rfl rfl rfl rfl
      have htraced' : Traced c r.identity (r.history ++ [.decided session accept]) session
          { entry with stage := .revealed z transcriptHash announced (some accept) } o :=
        { htraced.grow _ with
          stage := ⟨v, hmatches, hz, hhash, sublist_grow _ horder, fun haccept ↦ by
            cases haccept
            exact horder.append (List.Sublist.refl [_])⟩ }
      have hdecided := (hpruned.note hsay).insert htraced' (hpruned.table_free session htable) ?_
      · exact hdecided.restrict (List.Sublist.refl _) (fun _ _ hsame ↦ hsame) rfl rfl rfl
      · intro hclosed
        rcases mem_filterMap_concat.mp hclosed with hold | hnew
        · exact hpruned.open_of_table htable hold
        · cases hnew

private theorem lawful_removeSession (h : Lawful c r) (session : String) :
    Lawful c (r.removeSession session) :=
  (h.remove session).restrict (List.Sublist.refl _) (fun _ _ hsame ↦ hsame) rfl rfl rfl

private theorem lawful_handleConfirm (h : Lawful c r) (session : String) (confirm : Bool) :
    Lawful c (r.handleConfirm session confirm) := by
  have hpruned := h.prune
  unfold PairingResponder.handleConfirm
  simp only
  split
  · split
    · next htable =>
      obtain ⟨entry, hentry⟩ := Option.isSome_iff_exists.mp htable
      refine Lawful.returnAtOnce ?_ fun _ he ↦ by cases he
      apply (lawful_removeSession hpruned session).note
      refine ⟨(fun _ hn ↦ by cases hn), (fun hon ↦ by cases hon), (fun _ hn ↦ by cases hn),
        (fun _ hn ↦ by cases hn), (fun _ hs ↦ by cases hs), ?_, (fun _ _ he ↦ by cases he), fun _ _ he ↦ by cases he⟩
      intro session' hsession
      cases hsession
      exact ⟨hpruned.open_of_table htable, Function.update_self .., hpruned.table_free session htable,
        hpruned.created_of_table hentry⟩
    · refine Lawful.returnAtOnce ?_ fun _ he ↦ by cases he
      exact hpruned.restrict (List.Sublist.refl _) (fun _ _ hsame ↦ hsame) rfl rfl rfl
  · split
    · exact hpruned.returnAtOnce fun _ he ↦ by cases he
    · next entry hentry =>
      split
      · exact (hpruned.remove session).returnAtOnce fun _ he ↦ by cases he
      · next z transcriptHash announced decision hstage =>
        split
        · next decision =>
          refine hpruned.begin ?_ fun _ hholds ↦ by cases hholds
          rintro rfl
          obtain ⟨o, htraced⟩ := hpruned.table_ok _ _ hentry
          have hstageOk := htraced.stage
          rw [hstage] at hstageOk
          obtain ⟨v, hmatches, -, -, -, happroved⟩ := hstageOk
          exact ⟨o, v, hmatches, happroved rfl⟩
        · split
          · exact hpruned.begin trivial fun _ hholds ↦ by cases hholds
          · exact hpruned.begin trivial fun _ hholds ↦ by cases hholds

private theorem lawful_awaitDecision (h : Lawful c r) (n : Nat) (session : String)
    (deadline : Nat) :
    Lawful c (r.awaitDecision n session deadline) := by
  have hpruned := h.prune
  have hparked : Lawful c ({ r with sessions := pruneSessions r.clock r.sessions }.goOn n
      (.confirmParked session deadline r.notifications)) :=
    hpruned.goOn trivial (fun _ hholds ↦ by cases hholds) (fun hmay ↦ by cases hmay)
      fun hmay ↦ by cases hmay
  unfold PairingResponder.awaitDecision
  simp only
  split
  · exact hpruned.return n fun _ he ↦ by cases he
  · next entry hentry =>
    split
    · exact hparked
    · exact hparked
    · next z transcriptHash announced decision hstage =>
      refine hpruned.goOn ?_ (fun _ hholds ↦ by cases hholds) (fun hmay ↦ by cases hmay)
        fun hmay ↦ by cases hmay
      rintro rfl
      obtain ⟨o, htraced⟩ := hpruned.table_ok _ _ hentry
      have hstageOk := htraced.stage
      rw [hstage] at hstageOk
      obtain ⟨v, hmatches, -, -, -, happroved⟩ := hstageOk
      exact ⟨o, v, hmatches, happroved rfl⟩

private theorem lawful_confirmTake (h : Lawful c r) {n : Nat} {session : String} {decision : Bool}
    (hcall : r.calls[n]? = some (.confirmRead session decision)) (now : Int) :
    Lawful c (r.confirmTake c n session decision now) := by
  have hremoved := h.remove session
  unfold PairingResponder.confirmTake
  simp only
  split
  · exact hremoved.return n fun _ he ↦ by cases he
  · next entry hentry =>
    split
    · exact hremoved.return n fun _ he ↦ by cases he
    · next z transcriptHash announced decision' hstage =>
      split
      · exact hremoved.return n fun _ he ↦ by cases he
      · next hdecision =>
        have hdecision : decision = true := by simpa using hdecision
        have htable : (r.sessions session).isSome := by rw [hentry]; rfl
        obtain ⟨o, htraced⟩ := h.table_ok session entry hentry
        obtain ⟨o', v, hmatches, happroved⟩ := h.calls_ok n _ hcall hdecision
        have horigin : o'.event session = o.event session :=
          h.origin_eq htraced.sound.created (happroved.mem List.mem_cons_self)
        have hauthorised : ∀ record : PeerRecord,
            record = PairingResponder.recordOf c entry z transcriptHash now →
            Authorised c r.identity (r.history ++ [.recorded session record]) session record o v := by
          rintro record rfl
          refine ⟨htraced.sound.grow _, matches_of_event hmatches horigin, ?_, ?_, ?_, ?_⟩
          · rw [← horigin]
            exact happroved.append (List.Sublist.refl [_])
          · exact congrArg Vector.toList htraced.identity_eq
          · have hfew := length_validateInitiatorAddrs htraced.sound.genuine.shaped.2
            change (entry.initiatorAddrs.take maxDirectCandidates).map _ = _
            rw [htraced.addrs_eq, List.take_of_length_le hfew]
          · exact htraced.control_eq
        have hsay : Sayable c ({ r with sessions := Function.update r.sessions session none }.goOn n
            (.returned (.error .sessionExpired)))
            (.recorded session (PairingResponder.recordOf c entry z transcriptHash now)) := by
          refine ⟨(fun _ hn ↦ by cases hn), (fun hon ↦ by cases hon), (fun _ hn ↦ by cases hn),
            (fun _ hn ↦ by cases hn), (fun _ hs ↦ by cases hs), ?_, (fun _ _ he ↦ by cases he), ?_⟩
          · intro session' hsession
            cases hsession
            refine ⟨h.open_of_table htable, Function.update_self .., ?_, h.created_of_table hentry⟩
            intro call hmem
            rcases List.mem_or_eq_of_mem_set hmem with hold | rfl
            · exact h.table_free session htable call hold
            · exact fun hholds ↦ by cases hholds
          · intro session' record he
            cases he
            exact ⟨o, v, hauthorised _ rfl⟩
        have hnoted := (hremoved.return n fun _ he ↦ by cases he).note hsay
        rw [← goOn_note_goOn n (.returned (.error .sessionExpired))]
        refine hnoted.goOn ?_ (fun _ hholds ↦ by cases hholds) (fun hmay ↦ by cases hmay)
          fun hmay ↦ by cases hmay
        intro record hrecord
        cases hrecord
        exact ⟨session, List.mem_append_right _ (List.mem_singleton_self _)⟩

private theorem lawful_advance (h : Lawful c r) {n : Nat} {draw : Draw}
    (hfresh : FreshSession r (.advance n draw)) : Lawful c (r.advance c n draw) := by
  unfold PairingResponder.advance
  split
  · next req addrs source hcall => exact lawful_helloLookup h hcall
  · next source error hcall =>
    have hrecorded : Lawful c { r with failures := recordFailedHello r.clock source r.failures } :=
      h.restrict (List.Sublist.refl _) (fun _ _ hsame ↦ hsame) rfl rfl rfl
    exact hrecorded.return n fun _ he ↦ by cases he
  · next req addrs hcall => exact lawful_helloConsume h hcall
  · next req addrs hcall =>
    have hok := h.calls_ok n _ hcall
    exact h.goOn hok (fun _ hholds ↦ by cases hholds) (fun hmay ↦ by cases hmay)
      fun _ ↦ h.uncreated n _ hcall rfl
  · next req addrs me hcall => exact lawful_helloCreate h hcall (hfresh _ hcall rfl)
  · next req entry hcall => exact lawful_revealCheck h hcall
  · next req entry z transcriptHash accepted hcall => exact lawful_revealPutBack h hcall
  · next session deadline hcall => exact lawful_awaitDecision h n session deadline
  · split
    · exact h.goOn trivial (fun _ hholds ↦ by cases hholds) (fun hmay ↦ by cases hmay)
        fun hmay ↦ by cases hmay
    · exact h
  · next session decision hcall => exact lawful_confirmTake h hcall draw.unixSecs
  · next session hcall => exact (lawful_removeSession h session).return n fun _ he ↦ by cases he
  · exact h
  · exact h

private theorem lawful_timeOut (h : Lawful c r) (n : Nat) : Lawful c (r.timeOut n) := by
  have hlate : ∀ session, Lawful c (r.goOn n (.confirmLate session)) := fun session ↦
    h.goOn trivial (fun _ hholds ↦ by cases hholds) (fun hmay ↦ by cases hmay)
      fun hmay ↦ by cases hmay
  unfold PairingResponder.timeOut
  split
  · split
    · exact hlate _
    · exact h
  · split
    · exact hlate _
    · exact h
  · exact h

/-- Each step keeps the invariant. -/
theorem lawful_step (r : PairingResponder) (op : PairingOp) (h : Lawful c r)
    (hfresh : FreshSession r op) : Lawful c (r.step c op) := by
  cases op with
  | tick nanos => exact h.restrict (List.Sublist.refl _) (fun _ _ hsame ↦ hsame) rfl rfl rfl
  | generateCode n => exact lawful_generateCode h n
  | revokeCodes => exact lawful_revokeCodes h
  | setSelfInfo info => exact h.restrict (List.Sublist.refl _) (fun _ _ hsame ↦ hsame) rfl rfl rfl
  | hello req source => exact lawful_handleHello h req source
  | reveal req => exact lawful_handleReveal h req
  | setLocalDecision session accept => exact lawful_setLocalDecision h session accept
  | confirm session confirm => exact lawful_handleConfirm h session confirm
  | advance n draw => exact lawful_advance h hfresh
  | timeOut n => exact lawful_timeOut h n
  | pruneCodes => exact h.restrict List.filter_sublist (fun _ _ hsame ↦ hsame) rfl rfl rfl
  | pruneSessions => exact h.prune
  | pruneFailures => exact h.restrict (List.Sublist.refl _) (fun _ _ hsame ↦ hsame) rfl rfl rfl

end Changes

/-- A new responder is lawful. -/
theorem lawful_new (c : Primitives) (identity : LinkIdentity) (selfInfo : SelfInfo) :
    Lawful c (PairingResponder.new identity selfInfo) := by
  constructor <;> simp [PairingResponder.new]

/-- The invariant holds after a run whose new sessions get new ids. -/
theorem lawful_run (c : Primitives) (identity : LinkIdentity) (selfInfo : SelfInfo)
    (ops : List PairingOp)
    (h : EveryStep (PairingResponder.step c) FreshSession (.new identity selfInfo) ops) :
    Lawful c (run (PairingResponder.step c) (.new identity selfInfo) ops) :=
  run_invariant lawful_step (lawful_new c identity selfInfo) h

/-! ## What a run shows -/

/-- What the history of the responder shows of its records, its sessions and its codes. -/
structure PairingAuthorised (c : Primitives) (r : PairingResponder) : Prop where
  /-- A record that a call returned is in the history. -/
  returned : ∀ (n : Nat) (record : PeerRecord), r.calls[n]? = some (Call.returned (.ok (.confirm (some record)))) →
    ∃ session, .recorded session record ∈ r.history
  /-- A record goes back to a signed hello that used up the live code, its reveal and the user's
  approval, in this order. -/
  authorised : ∀ session record, .recorded session record ∈ r.history →
    ∃ o v, Authorised c r.identity r.history session record o v
  /-- A session is created once. -/
  created_once : (r.history.filterMap PairingEvent.createdSession).Nodup
  /-- One generated code makes one session at most. -/
  session_once : ∀ session session' (o o' : Origin), o.Sound c r.history session →
    o'.Sound c r.history session' → o.position = o'.position → session = session'
  /-- A session makes one record at most. -/
  record_once : (r.history.filterMap PairingEvent.recordedSession).Nodup
  /-- Each session goes back to a signed hello that used up the live code. -/
  sound : ∀ session ∈ r.history.filterMap PairingEvent.createdSession,
    ∃ o : Origin, o.Sound c r.history session
  /-- A hello that uses up a code has the live code, the right version, addresses that can be
  parsed and a right signature. -/
  consumed : ∀ n req time, .consumed n req time ∈ r.history →
    ∃ addrs position, req.Genuine c addrs ∧ UsedUp r.history position n req

/-- Two hellos that used up the code of one generation are one hello. -/
theorem UsedUp.call_eq {history : List PairingEvent} {position call call' : Nat}
    {req req' : HelloRequest} (h : UsedUp history position call req)
    (h' : UsedUp history position call' req') : call = call' := by
  obtain ⟨before, between, after, issued, time, hlength, hhistory, hbetween, -⟩ := h
  obtain ⟨before', between', after', issued', time', hlength', hhistory', hbetween', -⟩ := h'
  rw [hhistory] at hhistory'
  have hrest := (List.cons.inj (List.append_inj hhistory' (hlength.trans hlength'.symm)).2).2
  clear hhistory hhistory' hlength hlength'
  -- Both lists start with events that leave codes alone, up to the hello that used one up.
  induction between generalizing between' with
  | nil =>
    cases between' with
    | nil =>
      cases hrest
      rfl
    | cons event between' =>
      cases hrest
      have honCodes := hbetween' _ List.mem_cons_self
      cases honCodes
  | cons event between ih =>
    cases between' with
    | nil =>
      cases hrest
      have honCodes := hbetween _ List.mem_cons_self
      cases honCodes
    | cons event' between' =>
      exact ih (fun e he ↦ hbetween e (List.mem_cons_of_mem _ he)) between'
        (fun e he ↦ hbetween' e (List.mem_cons_of_mem _ he)) (List.cons.inj hrest).2

/-- One generated code makes one session at most. -/
theorem Lawful.session_eq {c : Primitives} {r : PairingResponder} (h : Lawful c r)
    {session session' : String} {o o' : Origin} (ho : o.Sound c r.history session)
    (ho' : o'.Sound c r.history session') (hposition : o.position = o'.position) :
    session = session' := by
  have hcall : o.call = o'.call := (hposition ▸ ho.usedUp).call_eq ho'.usedUp
  have hevent : o.event session = o'.event session' :=
    eq_of_nodup_filterMap h.creator_once ho.created ho'.created rfl (congrArg some hcall.symm)
  exact (PairingEvent.created.inj hevent).2.1

/-- Records are a part of what uses sessions up. -/
theorem recordedSession_sublist (history : List PairingEvent) :
    (history.filterMap PairingEvent.recordedSession).Sublist
      (history.filterMap PairingEvent.closedSession) := by
  induction history with
  | nil => exact List.Sublist.refl _
  | cons event history ih =>
    cases event with
    | recorded session record => exact ih.cons_cons session
    | refused session => exact ih.cons session
    | _ => exact ih

/-- In every run whose new sessions get new ids, records, sessions and codes are authorised. -/
theorem pairing_authorised (c : Primitives) (identity : LinkIdentity) (selfInfo : SelfInfo)
    (ops : List PairingOp)
    (h : EveryStep (PairingResponder.step c) FreshSession (.new identity selfInfo) ops) :
    PairingAuthorised c (run (PairingResponder.step c) (.new identity selfInfo) ops) := by
  have hlawful := lawful_run c identity selfInfo ops h
  constructor
  · intro n record hcall
    exact hlawful.calls_ok n _ hcall record rfl
  · exact hlawful.records_ok
  · exact hlawful.created_once
  · intro session session' o o' ho ho' hposition
    exact hlawful.session_eq ho ho' hposition
  · exact (recordedSession_sublist _).nodup hlawful.closed_once
  · exact hlawful.created_ok
  · exact hlawful.consumed_ok

/-- A hello with the only code the user may type in the examples. -/
def sampleHello : HelloRequest where
  protocolVersion := 2
  code := "000007"
  initiatorIdPub := Vector.replicate 32 1
  initiatorCommit := Vector.replicate 32 0
  initiatorSig := Vector.replicate 64 0
  name := "Desk"
  platform := some "linux"
  appVersion := none
  initiatorAddrs := []
  requestControl := true

/-- Random bytes and the id of a session. -/
def sampleDraw (sessionId : String) : Draw :=
  ⟨Vector.replicate 32 3, Vector.replicate 32 4, sessionId, 1700000000⟩

/-- A hello and a reveal that are accepted, up to the user's decision. -/
def revealedSession : List PairingOp :=
  [.generateCode 7, .hello sampleHello none, .advance 0 (sampleDraw "s"),
    .advance 0 (sampleDraw "s"), .advance 0 (sampleDraw "s"), .advance 0 (sampleDraw "s"),
    .reveal ⟨"s", Vector.replicate 32 5, Vector.replicate 32 6⟩, .advance 1 (sampleDraw "s"),
    .advance 1 (sampleDraw "s")]

/-- The responder of the examples. -/
def sampleResponder : PairingResponder := .new ⟨Vector.replicate 32 2⟩ ⟨"Phone", none, none, none⟩

/-- A pairing that is recorded. -/
theorem pairing_authorised_record :
    let r := run (PairingResponder.step plainPrimitives) sampleResponder
      (revealedSession ++ [.setLocalDecision "s" true, .confirm "s" true, .advance 2 (sampleDraw "s")])
    r.history.filterMap PairingEvent.recordedSession = ["s"] ∧ PairingAuthorised plainPrimitives r := by
  refine ⟨by decide +kernel, ?_⟩
  apply pairing_authorised
  decide +kernel

end Link
