import FluxDown.Base.KeyedRows
import FluxDown.Base.Run
import FluxDown.Link.Address
import FluxDown.Link.Transcript

/-!
# The responder of a pairing

Library `Link`. The responder keeps pairing codes, sessions and times of failed hellos in three
tables with a lock each. A call takes the locks one after another, so its sections are steps
of their own and other calls come between them. Times are in nanoseconds.
-/

namespace Link

open Base

/-- Nanoseconds of a number of seconds. -/
def secs (n : Nat) : Nat := n * 1000000000

/-- How long a code lives (`src/native/link/src/pairing.rs:74–76`). -/
def codeTtl : Nat := secs 120

/-- How long a session lives (`pairing.rs:77–84`). -/
def sessionTtl : Nat := secs 180

/-- How long a reveal may take (`pairing.rs:85–88`). -/
def revealTimeout : Nat := secs 30

/-- Failed hellos of one source within the window (`pairing.rs:89–92`). -/
def maxFailedHellos : Nat := 10

/-- Failed hellos of all sources within the window (`pairing.rs:93–99`). -/
def maxFailedHellosGlobal : Nat := 200

/-- The window in which failed hellos count (`pairing.rs:100–101`). -/
def failedHelloWindow : Nat := secs 120

/-- The most times kept of a bucket (`pairing.rs:102–106`). -/
def maxFailedHelloRecords : Nat := 64

/-- The most buckets (`pairing.rs:107–111`). -/
def maxFailureBuckets : Nat := 256

/-- The bucket of sources without an address (`pairing.rs:112–115`). -/
def unknownSourceKey : String := "unknown"

/-- The longest address in bytes (`pairing.rs:116–117`). -/
def maxAddressLen : Nat := 256

/-- How long the user may take to decide (`pairing.rs:118–130`). -/
def localDecisionTimeout : Nat := secs 60

/-! ## Tables -/

/-- Where a session stands (`pairing.rs:325–348`). -/
inductive SessionStage where
  | awaitingReveal (commit ephSecret nonce helloDigest responderInfoDigest : Bytes32)
  | revealed (z transcriptHash : Bytes32) (announced : Nat) (decision : Option Bool)

/-- A session (`pairing.rs:350–364`). -/
structure ConfirmEntry where
  initiatorIdPub : Bytes32
  name : String
  platform : Option String
  appVersion : Option String
  initiatorAddrs : List String
  created : Nat
  requestControl : Bool
  stage : SessionStage

/-- A code that was not used yet (`pairing.rs:366–370`). -/
structure CodeEntry where
  code : String
  created : Nat
deriving DecidableEq

/-- The times of failed hellos of a bucket. -/
structure FailureBucket where
  key : String
  times : List Nat
deriving DecidableEq

/-- Address of a source. -/
inductive IpAddr where
  | v4 (octets : Vector UInt8 4)
  | v6 (segments : Vector UInt16 8)
deriving DecidableEq

/-- Sessions by their ids. -/
abbrev Sessions := String → Option ConfirmEntry

/-- Drop expired codes (`pairing.rs:372–377`). -/
def pruneCodes (now : Nat) (codes : List CodeEntry) : List CodeEntry :=
  codes.filter fun entry ↦ now - entry.created < codeTtl

/-- Drop expired sessions (`pairing.rs:379–383`). -/
def pruneSessions (now : Nat) (sessions : Sessions) : Sessions :=
  fun session ↦ (sessions session).filter fun entry ↦ now - entry.created < sessionTtl

/-- Dotted numbers of an address. -/
def ipv4Key (octets : List UInt8) : String := ".".intercalate (octets.map fun octet ↦ toString octet.toNat)

/-- Hexadecimal digits of a number. -/
def hexNumber (n : Nat) : String := String.ofList (Nat.toDigits 16 n)

/-- The bucket of a source: an address of the fourth version in either form, or a prefix of 64
bits (`pairing.rs:385–405`). -/
def failureBucketKey : Option IpAddr → String
  | none => unknownSourceKey
  | some (.v4 octets) => ipv4Key octets.toList
  | some (.v6 s) =>
    if s[0] = 0 ∧ s[1] = 0 ∧ s[2] = 0 ∧ s[3] = 0 ∧ s[4] = 0 ∧ s[5] = 0xffff then
      ipv4Key [(s[6] >>> 8).toUInt8, s[6].toUInt8, (s[7] >>> 8).toUInt8, s[7].toUInt8]
    else s!"{hexNumber s[0].toNat}:{hexNumber s[1].toNat}:{hexNumber s[2].toNat}:{hexNumber s[3].toNat}::/64"

/-- Add an address unless it is there. -/
def addCanonical (canonical : List String) (candidate : String) : List String :=
  if candidate ∈ canonical then canonical else canonical ++ [candidate]

/-- One address of a hello in its stored form (`pairing.rs:418–429`). -/
def canonicalAddr (addr : String) : Except LinkError String :=
  if maxAddressLen < addr.utf8ByteSize then .error (.badPayload "initiator address too long")
  else match PeerAddress.parse addr with
    | .error _ => .error (.badPayload "invalid initiator address")
    | .ok parsed => .ok parsed.toCandidate

/-- The addresses of a hello in their stored form (`pairing.rs:407–431`). -/
def validateInitiatorAddrs (addrs : List String) : Except LinkError (List String) :=
  if maxDirectCandidates < addrs.length then
    .error (.badPayload "too many initiator addresses")
  else addrs.foldlM (fun canonical addr ↦ (canonicalAddr addr).map (addCanonical canonical)) []

/-- Drop expired times and empty buckets (`pairing.rs:433–444`). -/
def pruneFailures (now : Nat) (failures : List FailureBucket) : List FailureBucket :=
  (failures.map fun bucket ↦
    { bucket with times := bucket.times.filter fun time ↦ now - time < failedHelloWindow }).filter
      fun bucket ↦ !bucket.times.isEmpty

/-- Put a failed hello on record (`pairing.rs:510–525`). -/
def recordFailedHello (now : Nat) (source : Option IpAddr) (failures : List FailureBucket) :
    List FailureBucket :=
  let failures := pruneFailures now failures
  let key := failureBucketKey source
  let key :=
    if (lastRow? FailureBucket.key key failures).isSome || failures.length < maxFailureBuckets then
      key
    else unknownSourceKey
  let times := ((lastRow? FailureBucket.key key failures).map FailureBucket.times).getD []
  let times := if maxFailedHelloRecords ≤ times.length then times.drop 1 else times
  upsertRow FailureBucket.key ⟨key, times ++ [now]⟩ failures

/-- The source, or all sources together, failed too often (`pairing.rs:532–545`). -/
def isThrottled (source : Option IpAddr) (failures : List FailureBucket) : Bool :=
  if maxFailedHellosGlobal ≤ (failures.map fun bucket ↦ bucket.times.length).sum then true
  else (lastRow? FailureBucket.key (failureBucketKey source) failures).any fun bucket ↦
    maxFailedHellos ≤ bucket.times.length

/-! ## Calls -/

/-- What a call returns. -/
inductive Reply where
  | hello (response : HelloResponse)
  | reveal (accepted : RevealAccepted)
  | confirm (record : Option PeerRecord)

/-- Where a call stands between two locks. -/
inductive Call where
  /-- A hello that was not throttled. -/
  | helloAllowed (req : HelloRequest) (addrs : List String) (source : Option IpAddr)
  /-- A hello that is put on record as failed. -/
  | helloFailed (source : Option IpAddr) (error : LinkError)
  /-- A hello with a live code and a right signature. -/
  | helloVerified (req : HelloRequest) (addrs : List String)
  /-- A hello that used its code up. -/
  | helloConsumed (req : HelloRequest) (addrs : List String)
  /-- A hello that read what this device reports of itself. -/
  | helloNamed (req : HelloRequest) (addrs : List String) (me : SelfInfo)
  /-- A reveal that took its session out of the table. -/
  | revealTaken (req : RevealRequest) (entry : ConfirmEntry)
  /-- A reveal that was accepted, before its session is put back. -/
  | revealChecked (req : RevealRequest) (entry : ConfirmEntry) (z transcriptHash : Bytes32)
      (accepted : RevealAccepted)
  /-- A confirm that looks for the user's decision. -/
  | confirmLooking (session : String) (deadline : Nat)
  /-- A confirm that waits for more than so many notifications. -/
  | confirmParked (session : String) (deadline seen : Nat)
  /-- A confirm that knows the user's decision. -/
  | confirmRead (session : String) (decision : Bool)
  /-- A confirm that waited too long. -/
  | confirmLate (session : String)
  /-- A call that returned. -/
  | returned (result : Except LinkError Reply)

/-- What happened, for statements about runs. -/
inductive PairingEvent where
  /-- A code was generated. -/
  | generated (code : String) (time : Nat)
  /-- Codes were revoked. -/
  | revoked
  /-- A hello's code was compared. -/
  | compared (call : Nat) (bucket : String) (found : Bool) (time : Nat)
  /-- A hello used its code up. -/
  | consumed (call : Nat) (req : HelloRequest) (time : Nat)
  /-- A hello's session was created. -/
  | created (call : Nat) (session : String) (req : HelloRequest) (me : SelfInfo) (time : Nat)
  /-- A reveal was accepted. -/
  | revealed (session : String) (req : RevealRequest) (z : Bytes32) (transcript : Transcript)
      (time : Nat)
  /-- The user's decision was stored. -/
  | decided (session : String) (accept : Bool)
  /-- The initiator refused. -/
  | refused (session : String)
  /-- A record was returned. -/
  | recorded (session : String) (record : PeerRecord)
deriving DecidableEq

/-- The responder, its calls and what happened (`pairing.rs:454–468`). -/
structure PairingResponder where
  identity : LinkIdentity
  selfInfo : SelfInfo
  codes : List CodeEntry
  sessions : Sessions
  failures : List FailureBucket
  /-- How often waiting confirms were woken. -/
  notifications : Nat
  /-- The clock. -/
  clock : Nat
  /-- Calls by their numbers. -/
  calls : List Call
  history : List PairingEvent

/-- What a step draws from outside: random bytes, an id and the time of day. -/
structure Draw where
  seed : Bytes32
  nonce : Bytes32
  sessionId : String
  unixSecs : Int

/-- What happens at the responder. -/
inductive PairingOp where
  | tick (nanos : Nat)
  | generateCode (n : Nat)
  | revokeCodes
  | setSelfInfo (info : SelfInfo)
  | hello (req : HelloRequest) (source : Option IpAddr)
  | reveal (req : RevealRequest)
  | setLocalDecision (session : String) (accept : Bool)
  | confirm (session : String) (confirm : Bool)
  /-- A call takes its next section. -/
  | advance (call : Nat) (draw : Draw)
  /-- A confirm notices that its deadline passed. -/
  | timeOut (call : Nat)
  | pruneCodes
  | pruneSessions
  | pruneFailures

namespace PairingResponder

/-- A responder (`pairing.rs:472–481`). -/
def new (identity : LinkIdentity) (selfInfo : SelfInfo) : PairingResponder :=
  ⟨identity, selfInfo, [], fun _ ↦ none, [], 0, 0, [], []⟩

/-- A new call. -/
def begin (r : PairingResponder) (call : Call) : PairingResponder :=
  { r with calls := r.calls ++ [call] }

/-- A call goes on. -/
def goOn (r : PairingResponder) (n : Nat) (call : Call) : PairingResponder :=
  { r with calls := r.calls.set n call }

/-- A call returns an error. -/
def fail (r : PairingResponder) (n : Nat) (error : LinkError) : PairingResponder :=
  r.goOn n (.returned (.error error))

/-- Something happened. -/
def note (r : PairingResponder) (event : PairingEvent) : PairingResponder :=
  { r with history := r.history ++ [event] }

/-- Wake waiting confirms. -/
def notify (r : PairingResponder) : PairingResponder :=
  { r with notifications := r.notifications + 1 }

/-! ### Codes -/

/-- A new code replaces the old one (`pairing.rs:547–561`). -/
def generateCode (r : PairingResponder) (n : Nat) : PairingResponder :=
  let code := padDigits 6 (n % 1000000)
  { r with codes := [⟨code, r.clock⟩] }.note (.generated code r.clock)

/-- Revoke codes (`pairing.rs:563–568`). -/
def revokeCodes (r : PairingResponder) : PairingResponder := { r with codes := [] }.note .revoked

/-! ### Hello -/

/-- Version, addresses and throttling of a hello (`pairing.rs:575–601`). -/
def handleHello (r : PairingResponder) (req : HelloRequest) (source : Option IpAddr) :
    PairingResponder :=
  if req.protocolVersion ≠ pairingProtocolVersion then
    r.begin (.returned (.error .unsupportedVersion))
  else match validateInitiatorAddrs req.initiatorAddrs with
    | .error error => r.begin (.returned (.error error))
    | .ok addrs =>
      let r := { r with failures := Link.pruneFailures r.clock r.failures }
      if isThrottled source r.failures then r.begin (.returned (.error .throttled))
      else r.begin (.helloAllowed req addrs source)

/-- The hello's code is looked up and its signature is checked (`pairing.rs:602–628`). -/
def helloLookup (c : Primitives) (r : PairingResponder) (n : Nat) (req : HelloRequest)
    (addrs : List String) (source : Option IpAddr) : PairingResponder :=
  if req.initiatorIdPub = r.identity.publicBytes c then r.fail n .selfPairing
  else
    let r := { r with codes := Link.pruneCodes r.clock r.codes }
    let found := r.codes.any fun entry ↦ entry.code == req.code
    let r := r.note (.compared n (failureBucketKey source) found r.clock)
    if !found then r.goOn n (.helloFailed source .invalidCode)
    else if !c.identityVerify req.initiatorIdPub (helloMessage req) req.initiatorSig then
      r.goOn n (.helloFailed source .badSignature)
    else r.goOn n (.helloVerified req addrs)

/-- The hello is put on record as failed (`pairing.rs:617`, `626`). -/
def helloRecord (r : PairingResponder) (n : Nat) (source : Option IpAddr) (error : LinkError) :
    PairingResponder :=
  { r with failures := recordFailedHello r.clock source r.failures }.fail n error

/-- The hello uses its code up (`pairing.rs:640–647`). -/
def helloConsume (r : PairingResponder) (n : Nat) (req : HelloRequest) (addrs : List String) :
    PairingResponder :=
  let r := { r with codes := Link.pruneCodes r.clock r.codes }
  match r.codes.findIdx? fun entry ↦ entry.code == req.code with
  | none => r.fail n .invalidCode
  | some pos =>
    { r with codes := r.codes.eraseIdx pos }.note (.consumed n req r.clock)
      |>.goOn n (.helloConsumed req addrs)

/-- The name that is stored of an initiator (`pairing.rs:650–660`). -/
def peerName (c : Primitives) (req : HelloRequest) : String :=
  let cleaned := sanitizeText req.name maxNameChars
  if cleaned.isEmpty then
    String.ofList ((fingerprint c req.initiatorIdPub.toList).toList.take 12)
  else cleaned

/-- The session of a hello (`pairing.rs:679–697`). -/
def entryOf (c : Primitives) (req : HelloRequest) (addrs : List String) (me : SelfInfo)
    (draw : Draw) (now : Nat) : ConfirmEntry where
  initiatorIdPub := req.initiatorIdPub
  name := peerName c req
  platform := sanitizeOptional req.platform maxPlatformChars
  appVersion := sanitizeOptional req.appVersion maxVersionChars
  initiatorAddrs := addrs
  created := now
  requestControl := req.requestControl
  stage := .awaitingReveal req.initiatorCommit draw.seed draw.nonce
    (hashTranscript c (helloMessage req))
    (responderInfoDigest c me.name me.platform me.appVersion)

/-- The reply to a hello (`pairing.rs:700–710`). -/
def helloResponse (c : Primitives) (r : PairingResponder) (me : SelfInfo) (draw : Draw) :
    HelloResponse where
  protocolVersion := pairingProtocolVersion
  sessionId := draw.sessionId
  responderEphPub := c.ephemeralPublic draw.seed
  responderNonce := draw.nonce
  responderIdPub := r.identity.publicBytes c
  name := me.name
  platform := me.platform
  appVersion := me.appVersion

/-- The hello's session is created (`pairing.rs:649–710`). -/
def helloCreate (c : Primitives) (r : PairingResponder) (n : Nat) (req : HelloRequest)
    (addrs : List String) (me : SelfInfo) (draw : Draw) : PairingResponder :=
  { r with
    sessions := Function.update (Link.pruneSessions r.clock r.sessions) draw.sessionId
      (some (entryOf c req addrs me draw r.clock)) }.note (.created n draw.sessionId req me r.clock)
    |>.goOn n (.returned (.ok (.hello (r.helloResponse c me draw))))

/-! ### Reveal -/

/-- A reveal takes its session out of the table (`pairing.rs:711–723`). -/
def handleReveal (r : PairingResponder) (req : RevealRequest) : PairingResponder :=
  let r := { r with sessions := Link.pruneSessions r.clock r.sessions }
  match r.sessions req.sessionId with
  | none => r.begin (.returned (.error .sessionExpired))
  | some entry => match entry.stage with
    | .awaitingReveal .. =>
      { r with sessions := Function.update r.sessions req.sessionId none }.begin
        (.revealTaken req entry)
    | .revealed .. => r.begin (.returned (.error .sessionExpired))

/-- The transcript as the responder sees it (`pairing.rs:761–770`). -/
def transcriptOf (c : Primitives) (identity : LinkIdentity) (req : RevealRequest)
    (initiatorIdPub ephSecret nonce helloDigest infoDigest : Bytes32) : Transcript where
  helloDigest := helloDigest
  initiatorIdPub := initiatorIdPub
  responderIdPub := identity.publicBytes c
  initiatorEphPub := req.initiatorEphPub
  responderEphPub := c.ephemeralPublic ephSecret
  initiatorNonce := req.initiatorNonce
  responderNonce := nonce
  responderInfoDigest := infoDigest

/-- The reveal is checked and the transcript is signed (`pairing.rs:742–773`). -/
def revealCheck (c : Primitives) (r : PairingResponder) (n : Nat) (req : RevealRequest)
    (entry : ConfirmEntry) : PairingResponder :=
  match entry.stage with
  | .revealed .. => r.fail n .sessionExpired
  | .awaitingReveal commit ephSecret nonce helloDigest infoDigest =>
    if revealTimeout < r.clock - entry.created then r.fail n .sessionExpired
    else if !verifyEphCommitment c commit req.initiatorEphPub req.initiatorNonce then
      r.fail n .commitmentMismatch
    else
      let z := c.diffieHellman ephSecret req.initiatorEphPub
      if isAllZero z then r.fail n (.badPayload "degenerate x25519 public key")
      else
        let transcript := transcriptOf c r.identity req entry.initiatorIdPub ephSecret nonce
          helloDigest infoDigest
        let transcriptHash := transcript.hash c
        let accepted : RevealAccepted :=
          { responderSig := r.identity.sign c transcript.responderSigningMessage
            sas := deriveSas c z transcriptHash
            peerName := entry.name
            peerPlatform := entry.platform
            peerIdPub := entry.initiatorIdPub
            requestControl := entry.requestControl }
        r.note (.revealed req.sessionId req z transcript r.clock)
          |>.goOn n (.revealChecked req entry z transcriptHash accepted)

/-- The revealed session is put back (`pairing.rs:775–802`). -/
def revealPutBack (r : PairingResponder) (n : Nat) (req : RevealRequest) (entry : ConfirmEntry)
    (z transcriptHash : Bytes32) (accepted : RevealAccepted) : PairingResponder :=
  { r with
    sessions := Function.update r.sessions req.sessionId
      (some { entry with stage := .revealed z transcriptHash r.clock none }) }.goOn n
    (.returned (.ok (.reveal accepted)))

/-! ### Decision and confirm -/

/-- Store the user's decision (`pairing.rs:805–822`). -/
def setLocalDecision (r : PairingResponder) (session : String) (accept : Bool) :
    PairingResponder :=
  let r := { r with sessions := Link.pruneSessions r.clock r.sessions }
  match r.sessions session with
  | none => r
  | some entry => match entry.stage with
    | .awaitingReveal .. => r
    | .revealed z transcriptHash announced _ =>
      { r with
        sessions := Function.update r.sessions session
          (some { entry with stage := .revealed z transcriptHash announced (some accept) }) }.note
        (.decided session accept) |>.notify

/-- Take a session out of the table (`pairing.rs:824–831`). -/
def removeSession (r : PairingResponder) (session : String) : PairingResponder :=
  { r with sessions := Function.update r.sessions session none }.notify

/-- A confirm up to the user's decision (`pairing.rs:833–902`). -/
def handleConfirm (r : PairingResponder) (session : String) (confirm : Bool) : PairingResponder :=
  let r := { r with sessions := Link.pruneSessions r.clock r.sessions }
  if !confirm then
    if (r.sessions session).isSome then
      (r.removeSession session).note (.refused session)
        |>.begin (.returned (.ok (.confirm none)))
    else r.notify.begin (.returned (.error .sessionExpired))
  else match r.sessions session with
    | none => r.begin (.returned (.error .sessionExpired))
    | some entry => match entry.stage with
      | .awaitingReveal .. =>
        { r with sessions := Function.update r.sessions session none }.begin
          (.returned (.error (.badPayload "pairing confirm received before reveal")))
      | .revealed _ _ announced decision => match decision with
        | some decision => r.begin (.confirmRead session decision)
        | none =>
          let deadline := announced + localDecisionTimeout
          if deadline < r.clock then r.begin (.confirmLate session)
          else r.begin (.confirmLooking session deadline)

/-- A confirm looks for the user's decision (`pairing.rs:953–983`). -/
def awaitDecision (r : PairingResponder) (n : Nat) (session : String) (deadline : Nat) :
    PairingResponder :=
  let r := { r with sessions := Link.pruneSessions r.clock r.sessions }
  match r.sessions session with
  | none => r.fail n .sessionExpired
  | some entry => match entry.stage with
    | .awaitingReveal .. | .revealed _ _ _ none =>
      r.goOn n (.confirmParked session deadline r.notifications)
    | .revealed _ _ _ (some decision) => r.goOn n (.confirmRead session decision)

/-- The record of a session (`pairing.rs:926–950`). -/
def recordOf (c : Primitives) (entry : ConfirmEntry) (z transcriptHash : Bytes32) (now : Int) :
    PeerRecord :=
  { fingerprint := fingerprint c entry.initiatorIdPub.toList
    identityPub := entry.initiatorIdPub.toList
    name := entry.name
    platform := entry.platform
    linkSecret := deriveLinkKey c z transcriptHash
    candidates := (entry.initiatorAddrs.take maxDirectCandidates).map fun address ↦
      ⟨.direct, address⟩
    pairedAt := now
    lastSeenAt := now
    appVersion := entry.appVersion
    grantsControl := entry.requestControl }

/-- A confirm that knows the decision takes the session (`pairing.rs:904–951`). -/
def confirmTake (c : Primitives) (r : PairingResponder) (n : Nat) (session : String)
    (decision : Bool) (now : Int) : PairingResponder :=
  let entry := r.sessions session
  let r := { r with sessions := Function.update r.sessions session none }
  match entry with
  | none => r.fail n .sessionExpired
  | some entry => match entry.stage with
    | .awaitingReveal .. => r.fail n .sessionExpired
    | .revealed z transcriptHash _ _ =>
      if !decision then r.fail n .rejectedByPeer
      else
        let record := recordOf c entry z transcriptHash now
        r.note (.recorded session record) |>.goOn n (.returned (.ok (.confirm (some record))))

/-- A confirm that waited too long removes the session (`pairing.rs:897–899`, `980–989`). -/
def confirmExpire (r : PairingResponder) (n : Nat) (session : String) : PairingResponder :=
  (r.removeSession session).fail n .pairingTimeout

/-! ### Steps -/

/-- A call takes its next section. -/
def advance (c : Primitives) (r : PairingResponder) (n : Nat) (draw : Draw) : PairingResponder :=
  match r.calls[n]? with
  | some (.helloAllowed req addrs source) => r.helloLookup c n req addrs source
  | some (.helloFailed source error) => r.helloRecord n source error
  | some (.helloVerified req addrs) => r.helloConsume n req addrs
  | some (.helloConsumed req addrs) => r.goOn n (.helloNamed req addrs r.selfInfo)
  | some (.helloNamed req addrs me) => r.helloCreate c n req addrs me draw
  | some (.revealTaken req entry) => r.revealCheck c n req entry
  | some (.revealChecked req entry z transcriptHash accepted) =>
    r.revealPutBack n req entry z transcriptHash accepted
  | some (.confirmLooking session deadline) => r.awaitDecision n session deadline
  | some (.confirmParked session deadline seen) =>
    if seen < r.notifications then r.goOn n (.confirmLooking session deadline) else r
  | some (.confirmRead session decision) => r.confirmTake c n session decision draw.unixSecs
  | some (.confirmLate session) => r.confirmExpire n session
  | some (.returned _) | none => r

/-- A confirm notices that its deadline passed (`pairing.rs:978–989`). -/
def timeOut (r : PairingResponder) (n : Nat) : PairingResponder :=
  match r.calls[n]? with
  | some (.confirmLooking session deadline) | some (.confirmParked session deadline _) =>
    if deadline ≤ r.clock then r.goOn n (.confirmLate session) else r
  | _ => r

/-- One step of the responder. -/
def step (c : Primitives) (r : PairingResponder) : PairingOp → PairingResponder
  | .tick nanos => { r with clock := r.clock + nanos }
  | .generateCode n => r.generateCode n
  | .revokeCodes => r.revokeCodes
  | .setSelfInfo info => { r with selfInfo := info }
  | .hello req source => r.handleHello req source
  | .reveal req => r.handleReveal req
  | .setLocalDecision session accept => r.setLocalDecision session accept
  | .confirm session confirm => r.handleConfirm session confirm
  | .advance n draw => r.advance c n draw
  | .timeOut n => r.timeOut n
  | .pruneCodes => { r with codes := Link.pruneCodes r.clock r.codes }
  | .pruneSessions => { r with sessions := Link.pruneSessions r.clock r.sessions }
  | .pruneFailures => { r with failures := Link.pruneFailures r.clock r.failures }

end PairingResponder

end Link
