import FluxDown.Link.Authorize
import FluxDown.Link.Messages

/-!
# Requests and responses between devices

Library `Link`. Devices with their data planes post requests to each other, answer those they
accepted and open the responses; what arrives at a device, and which of the messages on the
network it is, is left to the run. The run keeps what the devices put under the secrets of their
links. A tag that verifies and a body that opens were put there by a device, which is what the
ideal code and cipher promise; the formats then say which call of which device it was.
-/

namespace Link

open Base

/-- Version of the data plane (`src/native/link/src/crypto.rs:31–33`). -/
def linkProtocolVersion : Nat := 2

/-- ChaCha20-Poly1305 of another package: key, nonce, associated data and plaintext. -/
abbrev AeadSeal := List UInt8 → List UInt8 → List UInt8 → List UInt8 → Option (List UInt8)

/-- Encrypt a body under a random nonce; the nonce alone where encryption fails
(`crypto.rs:218–251`). -/
def sealLinkBody (aeadSeal : AeadSeal) (bodyNonce : Vector UInt8 12)
    (key aad plaintext : List UInt8) : List UInt8 :=
  bodyNonce.toList ++ (aeadSeal key bodyNonce.toList aad plaintext).getD []

namespace LinkRequest

/-- What the request was bound to (`src/native/link/src/manager.rs:1791–1798`). -/
def exchange (request : LinkRequest) : LinkExchange :=
  ⟨request.method, request.path, request.nonce, request.device, request.receiver⟩

/-- Encrypt a response (`manager.rs:1786–1800`). -/
def sealResponse (request : LinkRequest) (aeadSeal : AeadSeal) (bodyNonce : Vector UInt8 12)
    (plaintext : List UInt8) : List UInt8 :=
  sealLinkBody aeadSeal bodyNonce request.aeadKey (responseAad request.exchange) plaintext

end LinkRequest

namespace DataPlane

/-- What a call returns that goes on from its lookup (`manager.rs:1629–1676`). -/
def settled (c : Primitives) (plane : DataPlane) (request : AuthRequest) (now : Int)
    (answer : Except LinkError (Option PeerRecord)) : Except LinkError LinkRequest :=
  match request.authenticate c plane.me answer with
  | .error e => .error e
  | .ok record => match (takeNonce now request plane.seenNonces).2 with
    | .error e => .error e
    | .ok _ => request.accept c plane.me record

/-- The request that a step hands to the caller of `authorize`. -/
def handsOver (c : Primitives) (plane : DataPlane) : DataPlaneOp → Option (AuthRequest × LinkRequest)
  | .settle call answer => (plane.waiting call).bind fun waiting ↦
    (plane.settled c waiting.1 waiting.2 answer).toOption.map (waiting.1, ·)
  | _ => none

/-- A call is counted as accepted if it returns the request. -/
theorem accepted_settleCall (c : Primitives) (plane : DataPlane) (request : AuthRequest)
    (now : Int) (answer : Except LinkError (Option PeerRecord)) :
    (settleCall c plane request now answer).accepted.map (·.request) =
      plane.accepted.map (·.request) ++
        ((plane.settled c request now answer).toOption.map fun _ ↦ request).toList := by
  cases hrecord : request.authenticate c plane.me answer with
  | error e => simp [settleCall, settled, hrecord, Except.toOption]
  | ok record =>
    cases htaken : (takeNonce now request plane.seenNonces).2 with
    | error e => simp [settleCall, settled, hrecord, htaken, Except.toOption]
    | ok _ =>
      cases hopened : request.accept c plane.me record with
      | error e => simp [settleCall, settled, hrecord, htaken, hopened, Except.toOption]
      | ok accepted => simp [settleCall, settled, hrecord, htaken, hopened, Except.toOption]

/-- A data plane counts as accepted what it hands over. -/
theorem accepted_step (c : Primitives) (plane : DataPlane) (op : DataPlaneOp) :
    (plane.step c op).accepted.map (·.request) =
      plane.accepted.map (·.request) ++ ((plane.handsOver c op).map (·.1)).toList := by
  cases op with
  | tick seconds => simp [step, handsOver]
  | pruneExpired => simp [step, handsOver]
  | arrive call request =>
    simp only [step, handsOver]
    split <;> simp
  | settle call answer =>
    cases hwaiting : plane.waiting call with
    | none => simp [step, handsOver, hwaiting]
    | some waiting =>
      simp only [step, handsOver, hwaiting, accepted_settleCall]
      simp [settled, Function.comp_def]

/-- What a call returns was authenticated and opened with the sender's record. -/
theorem settled_ok {c : Primitives} {plane : DataPlane} {request : AuthRequest} {now : Int}
    {answer : Except LinkError (Option PeerRecord)} {accepted : LinkRequest}
    (h : plane.settled c request now answer = .ok accepted) :
    ∃ record plaintext, answer = .ok (some record) ∧
      verifyLinkAuthTag c record.linkSecret (request.exchange plane.me) request.ts request.body
        request.tag = true ∧
      openLinkBody c (deriveLinkAeadKey c record.linkSecret)
        (requestAad (request.exchange plane.me)) request.body = some plaintext ∧
      accepted = ⟨request.deviceFp, plaintext, plane.me, request.method, request.path,
        request.nonce, deriveLinkAeadKey c record.linkSecret⟩ := by
  cases hrecord : request.authenticate c plane.me answer with
  | error e => simp [settled, hrecord] at h
  | ok record =>
    have hknown : answer = .ok (some record) ∧ verifyLinkAuthTag c record.linkSecret
        (request.exchange plane.me) request.ts request.body request.tag = true := by
      unfold AuthRequest.authenticate at hrecord
      split at hrecord
      · cases hrecord
      · next found =>
        split at hrecord
        · cases hrecord
        · next other hother =>
          rw [Option.filter_eq_some_iff] at hother
          split at hrecord
          · next hverified =>
            cases hrecord
            exact ⟨by rw [hother.1], hverified⟩
          · cases hrecord
    cases htaken : (takeNonce now request plane.seenNonces).2 with
    | error e => simp [settled, hrecord, htaken] at h
    | ok _ =>
      simp only [settled, hrecord, htaken, AuthRequest.accept] at h
      split at h
      · cases h
      · next plaintext hopened =>
        exact ⟨record, plaintext, hknown.1, hknown.2, hopened, (Except.ok.inj h).symm⟩

/-- No step changes the device. -/
theorem me_step (c : Primitives) (plane : DataPlane) (op : DataPlaneOp) :
    (plane.step c op).me = plane.me := by
  cases op with
  | tick seconds => rfl
  | pruneExpired => rfl
  | arrive call request =>
    simp only [step]
    split <;> rfl
  | settle call answer =>
    simp only [step]
    split
    · rfl
    · unfold settleCall
      split
      · rfl
      · simp only
        split <;> rfl

end DataPlane

section Network

variable {ι : Type*}

/-- A request as it is sent (`manager.rs:1429–1455`). -/
structure Posted (ι : Type*) where
  device : ι
  record : PeerRecord
  exchange : LinkExchange
  ts : Int
  plaintext : List UInt8
  sealedBody : List UInt8
  tag : String

/-- Encrypt and sign a request; none where the other device is too old
(`manager.rs:1418–1455`). -/
def postSealed (c : Primitives) (aeadSeal : AeadSeal) (device : ι) (me : String) (now : Int)
    (record : PeerRecord) (linkProtocol : Nat) (path nonce : String)
    (bodyNonce : Vector UInt8 12) (plaintext : List UInt8) : Option (Posted ι) :=
  if linkProtocol < linkProtocolVersion then none
  else
    let exchange : LinkExchange := ⟨"POST", path, nonce, me, record.fingerprint⟩
    let aeadKey := deriveLinkAeadKey c record.linkSecret
    let sealedBody := sealLinkBody aeadSeal bodyNonce aeadKey (requestAad exchange) plaintext
    some ⟨device, record, exchange, now, plaintext, sealedBody,
      linkAuthTag c record.linkSecret exchange now sealedBody⟩

/-- Open the response of a request (`manager.rs:1459–1468`). -/
def Posted.openReply (c : Primitives) (posted : Posted ι) (enc : Option String)
    (body : List UInt8) : Except LinkError (List UInt8) :=
  if enc ≠ some linkEncV2 then .error .unauthorized
  else match openLinkBody c (deriveLinkAeadKey c posted.record.linkSecret)
      (responseAad posted.exchange) body with
    | none => .error .unauthorized
    | some plaintext => .ok plaintext

/-- A request that a device accepted. -/
structure Received (ι : Type*) where
  device : ι
  request : AuthRequest
  accepted : LinkRequest

/-- A response that a device sealed. -/
structure Answered (ι : Type*) where
  received : Received ι
  plaintext : List UInt8
  sealedBody : List UInt8

/-- A response that a device opened. -/
structure Opened (ι : Type*) where
  posted : Posted ι
  body : List UInt8
  plaintext : List UInt8

/-- A control credential that a device issued (`manager.rs:1680–1696`). -/
structure Credential where
  secret : List UInt8
  initiatorFp : String
  responderFp : String

/-- Devices and what they did under the secrets of their links. -/
structure Network (ι : Type*) where
  plane : ι → DataPlane
  posted : List (Posted ι)
  received : List (Received ι)
  answered : List (Answered ι)
  opened : List (Opened ι)
  credentials : List Credential

/-- What happens on the network. -/
inductive NetworkOp (ι : Type*) where
  /-- A step of the data plane of a device. -/
  | plane (device : ι) (op : DataPlaneOp)
  /-- A device posts a request to the device of a record. -/
  | post (device : ι) (record : PeerRecord) (linkProtocol : Nat) (path nonce : String)
      (bodyNonce : Vector UInt8 12) (plaintext : List UInt8)
  /-- A device answers a request that it accepted. -/
  | respond (number : Nat) (bodyNonce : Vector UInt8 12) (plaintext : List UInt8)
  /-- A response arrives at the call that posted a request. -/
  | reply (number : Nat) (enc : Option String) (body : List UInt8)
  /-- A device issues a control credential for the device of a record. -/
  | credential (device : ι) (record : PeerRecord)

namespace Network

/-- Devices that start, with their identities and clocks. -/
def start (c : Primitives) (keys : ι → List UInt8) (clock : ι → Int) : Network ι :=
  ⟨fun device ↦ DataPlane.start (fingerprint c (keys device)) (clock device), [], [], [], [], []⟩

variable [DecidableEq ι]

/-- One step of the network. -/
def step (c : Primitives) (aeadSeal : AeadSeal) (network : Network ι) : NetworkOp ι → Network ι
  | .plane device op =>
    let plane := network.plane device
    { network with
      plane := Function.update network.plane device (plane.step c op)
      received := network.received ++ ((plane.handsOver c op).map
        fun handed ↦ (⟨device, handed.1, handed.2⟩ : Received ι)).toList }
  | .post device record linkProtocol path nonce bodyNonce plaintext =>
    let plane := network.plane device
    { network with
      posted := network.posted ++ (postSealed c aeadSeal device plane.me plane.clock record
        linkProtocol path nonce bodyNonce plaintext).toList }
  | .respond number bodyNonce plaintext => match network.received[number]? with
    | none => network
    | some received => { network with
      answered := network.answered ++
        [⟨received, plaintext, received.accepted.sealResponse aeadSeal bodyNonce plaintext⟩] }
  | .reply number enc body => match network.posted[number]? with
    | none => network
    | some posted => match posted.openReply c enc body with
      | .error _ => network
      | .ok plaintext => { network with opened := network.opened ++ [⟨posted, body, plaintext⟩] }
  | .credential device record =>
    if record.controllable && !record.revoked && !record.linkSecret.isEmpty then
      { network with credentials := network.credentials ++
        [⟨record.linkSecret, (network.plane device).me, record.fingerprint⟩] }
    else network

end Network

namespace Network

variable [DecidableEq ι]

/-- The data plane of a device counts as accepted the requests that its calls returned. -/
def Counted (network : Network ι) : Prop :=
  ∀ device, (network.plane device).accepted.map (·.request) =
    (network.received.filter (·.device = device)).map (·.request)

private theorem counted_step {c : Primitives} {aeadSeal : AeadSeal} {network : Network ι}
    (h : network.Counted) (op : NetworkOp ι) : (network.step c aeadSeal op).Counted := by
  cases op with
  | plane device op =>
    intro other
    cases hhanded : (network.plane device).handsOver c op <;> by_cases hdevice : device = other
    · subst hdevice
      simpa [step, DataPlane.accepted_step, hhanded] using h device
    · simpa [step, hhanded, Function.update_of_ne (Ne.symm hdevice)] using h other
    · subst hdevice
      simpa [step, DataPlane.accepted_step, hhanded] using h device
    · simpa [step, hhanded, hdevice, Function.update_of_ne (Ne.symm hdevice)] using h other
  | post device record linkProtocol path nonce bodyNonce plaintext => exact h
  | respond number bodyNonce plaintext =>
    simp only [step]
    split <;> exact h
  | reply number enc body =>
    simp only [step]
    split
    · exact h
    · split <;> exact h
  | credential device record =>
    simp only [step]
    split <;> exact h

/-- In every run the requests returned to a device's callers are the accepted ones. -/
theorem counted_run (c : Primitives) (aeadSeal : AeadSeal) (keys : ι → List UInt8)
    (clock : ι → Int) (ops : List (NetworkOp ι)) :
    (run (step c aeadSeal) (start c keys clock) ops).Counted := by
  have hstep : ∀ (network : Network ι) (op : NetworkOp ι), network.Counted →
      (network.step c aeadSeal op).Counted := fun _ op h ↦ counted_step h op
  exact run_preserves hstep (fun _ ↦ rfl) ops

end Network

/-! ## What the run relies on -/

/-- One of the devices has the fingerprint. -/
def Member (c : Primitives) (keys : ι → List UInt8) (fp : String) : Prop :=
  ∃ device, fingerprint c (keys device) = fp

namespace Network

/-- A device authenticated the message with the secret. -/
def Signed (c : Primitives) (network : Network ι) (secret message : List UInt8) : Prop :=
  (∃ posted ∈ network.posted, posted.record.linkSecret = secret ∧
    linkAuthMessage c posted.exchange posted.ts posted.sealedBody = message) ∨
  ∃ credential ∈ network.credentials, credential.secret = secret ∧
    controlCredentialMessage credential.initiatorFp credential.responderFp = message

/-- A device encrypted the plaintext with the key and the associated data to the body. -/
def Encrypted (c : Primitives) (network : Network ι) (key aad body plaintext : List UInt8) :
    Prop :=
  (∃ posted ∈ network.posted, deriveLinkAeadKey c posted.record.linkSecret = key ∧
    requestAad posted.exchange = aad ∧ posted.sealedBody = body ∧ posted.plaintext = plaintext) ∨
  ∃ answered ∈ network.answered, answered.received.accepted.aeadKey = key ∧
    responseAad answered.received.accepted.exchange = aad ∧ answered.sealedBody = body ∧
      answered.plaintext = plaintext

/-- What a call relies on that goes on with the sender's record. The secret of a link between two
of the devices is known to no one else, so its code and its cipher are as good as ideal. -/
structure IdealCall (c : Primitives) (keys : ι → List UInt8) (network : Network ι) (me : String)
    (record : PeerRecord) (request : AuthRequest) : Prop where
  /-- Neither party pairs with its own identity (`src/native/link/src/pairing.rs:596–600`,
  `1113–1116`), so there is no record of the device itself. -/
  other : request.deviceFp ≠ me
  method : OneLine request.method
  path : OneLine request.path
  /-- A tag of another device verifies only if a device computed it. -/
  code : Member c keys request.deviceFp →
    verifyLinkAuthTag c record.linkSecret (request.exchange me) request.ts request.body
      request.tag = true →
    network.Signed c record.linkSecret
      (linkAuthMessage c (request.exchange me) request.ts request.body)
  /-- No two bodies have one digest. -/
  digest : ∀ posted ∈ network.posted, c.sha256 posted.sealedBody = c.sha256 request.body →
    posted.sealedBody = request.body
  /-- A body of another device opens only to what a device encrypted to it. -/
  cipher : Member c keys request.deviceFp → ∀ plaintext ∈
    openLinkBody c (deriveLinkAeadKey c record.linkSecret) (requestAad (request.exchange me))
      request.body,
    network.Encrypted c (deriveLinkAeadKey c record.linkSecret)
      (requestAad (request.exchange me)) request.body plaintext

/-- What a step of the network relies on. -/
def Ideal (c : Primitives) (keys : ι → List UInt8) (network : Network ι) : NetworkOp ι → Prop
  | .plane device (.settle call answer) => ∀ waiting ∈ (network.plane device).waiting call,
    ∀ found ∈ answer.toOption, ∀ record ∈ found,
      IdealCall c keys network (network.plane device).me record waiting.1
  | .post _ record _ path nonce _ _ =>
    OneLine path ∧ OneLine nonce ∧ OneLine record.fingerprint
  | .reply number _ body => ∀ posted ∈ network.posted[number]?,
    Member c keys posted.record.fingerprint → ∀ plaintext ∈
      openLinkBody c (deriveLinkAeadKey c posted.record.linkSecret) (responseAad posted.exchange)
        body,
      network.Encrypted c (deriveLinkAeadKey c posted.record.linkSecret)
        (responseAad posted.exchange) body plaintext
  | _ => True

section Decidable

variable [Fintype ι] {c : Primitives} {keys : ι → List UInt8} {network : Network ι}

instance (fp : String) : Decidable (Member c keys fp) :=
  inferInstanceAs (Decidable (∃ device, fingerprint c (keys device) = fp))

instance (secret message : List UInt8) : Decidable (network.Signed c secret message) :=
  inferInstanceAs (Decidable (_ ∨ _))

instance (key aad body plaintext : List UInt8) :
    Decidable (network.Encrypted c key aad body plaintext) :=
  inferInstanceAs (Decidable (_ ∨ _))

instance (me : String) (record : PeerRecord) (request : AuthRequest) :
    Decidable (IdealCall c keys network me record request) :=
  decidable_of_iff
    (request.deviceFp ≠ me ∧ OneLine request.method ∧ OneLine request.path ∧
      (Member c keys request.deviceFp →
        verifyLinkAuthTag c record.linkSecret (request.exchange me) request.ts request.body
          request.tag = true →
        network.Signed c record.linkSecret
          (linkAuthMessage c (request.exchange me) request.ts request.body)) ∧
      (∀ posted ∈ network.posted, c.sha256 posted.sealedBody = c.sha256 request.body →
        posted.sealedBody = request.body) ∧
      (Member c keys request.deviceFp → ∀ plaintext ∈
        openLinkBody c (deriveLinkAeadKey c record.linkSecret) (requestAad (request.exchange me))
          request.body,
        network.Encrypted c (deriveLinkAeadKey c record.linkSecret)
          (requestAad (request.exchange me)) request.body plaintext))
    ⟨fun ⟨other, method, path, code, digest, cipher⟩ ↦ ⟨other, method, path, code, digest, cipher⟩,
      fun h ↦ ⟨h.other, h.method, h.path, h.code, h.digest, h.cipher⟩⟩

instance : ∀ op, Decidable (network.Ideal c keys op)
  | .plane device (.settle call answer) => inferInstanceAs (Decidable
    (∀ waiting ∈ (network.plane device).waiting call, ∀ found ∈ answer.toOption, ∀ record ∈ found,
      IdealCall c keys network (network.plane device).me record waiting.1))
  | .post _ record _ path nonce _ _ =>
    inferInstanceAs (Decidable (OneLine path ∧ OneLine nonce ∧ OneLine record.fingerprint))
  | .reply number _ body => inferInstanceAs (Decidable (∀ posted ∈ network.posted[number]?,
    Member c keys posted.record.fingerprint → ∀ plaintext ∈
      openLinkBody c (deriveLinkAeadKey c posted.record.linkSecret) (responseAad posted.exchange)
        body,
      network.Encrypted c (deriveLinkAeadKey c posted.record.linkSecret)
        (responseAad posted.exchange) body plaintext))
  | .plane _ (.tick _) | .plane _ (.arrive _ _) | .plane _ .pruneExpired | .respond _ _ _ |
      .credential _ _ => inferInstanceAs (Decidable True)

end Decidable

/-- Nonces are random: no two requests have one nonce and no two responses start with one nonce of
the cipher. -/
structure Fresh (network : Network ι) : Prop where
  posted : ∀ posted ∈ network.posted, ∀ posted' ∈ network.posted,
    posted.exchange.nonce = posted'.exchange.nonce → posted = posted'
  answered : ∀ answered ∈ network.answered, ∀ answered' ∈ network.answered,
    answered.sealedBody.take 12 = answered'.sealedBody.take 12 → answered = answered'

/-! ## Where messages come from -/

/-- Characters of one kind, none of them a line break. -/
theorem oneLine_of_all {text : String} {kind : Char → Bool} (hbreak : kind '\n' = false)
    (h : text.toList.all kind = true) : OneLine text := by
  intro hmem
  have hkind := List.all_eq_true.mp h _ hmem
  rw [hbreak] at hkind
  cases hkind

private theorem oneLine_of_isFingerprintShaped {fp : String} (h : isFingerprintShaped fp = true) :
    OneLine fp := by
  rw [isFingerprintShaped, Bool.and_eq_true] at h
  exact oneLine_of_all (by decide) h.2

private theorem oneLine_of_isNonceShaped {nonce : String} (h : isNonceShaped nonce = true) :
    OneLine nonce := by
  rw [isNonceShaped, Bool.and_eq_true] at h
  exact oneLine_of_all (by decide) h.2

/-- Calls that wait have a fingerprint and a nonce on one line. -/
theorem waiting_step {c : Primitives} {plane : DataPlane}
    (h : ∀ call, ∀ waiting ∈ plane.waiting call,
      OneLine waiting.1.deviceFp ∧ OneLine waiting.1.nonce) (op : DataPlaneOp) :
    ∀ call, ∀ waiting ∈ (plane.step c op).waiting call,
      OneLine waiting.1.deviceFp ∧ OneLine waiting.1.nonce := by
  cases op with
  | tick seconds => exact h
  | pruneExpired => exact h
  | arrive arriving request =>
    simp only [DataPlane.step]
    split
    · exact h
    · next harrival =>
      intro call waiting hwaiting
      change waiting ∈ Function.update plane.waiting arriving (some (request, plane.clock)) call
        at hwaiting
      by_cases hcall : call = arriving
      · subst hcall
        rw [Function.update_self, Option.mem_some_iff] at hwaiting
        subst hwaiting
        have hshape : isFingerprintShaped request.deviceFp = true ∧
            isNonceShaped request.nonce = true := by
          unfold AuthRequest.checkArrival at harrival
          grind
        exact ⟨oneLine_of_isFingerprintShaped hshape.1, oneLine_of_isNonceShaped hshape.2⟩
      · rw [Function.update_of_ne hcall] at hwaiting
        exact h call waiting hwaiting
  | settle settling answer =>
    have hkept {plane' : DataPlane} (hsame : plane'.waiting =
        Function.update plane.waiting settling none) :
        ∀ call, ∀ waiting ∈ plane'.waiting call,
          OneLine waiting.1.deviceFp ∧ OneLine waiting.1.nonce := by
      intro call waiting hwaiting
      rw [hsame] at hwaiting
      by_cases hcall : call = settling
      · rw [hcall, Function.update_self] at hwaiting
        cases hwaiting
      · rw [Function.update_of_ne hcall] at hwaiting
        exact h call waiting hwaiting
    simp only [DataPlane.step]
    split
    · exact h
    · apply hkept
      unfold DataPlane.settleCall
      split
      · rfl
      · simp only
        split <;> rfl

/-- Sender and fingerprints of a posted request. -/
private structure Sent (c : Primitives) (keys : ι → List UInt8) (posted : Posted ι) : Prop where
  plain : posted.exchange.Plain
  sender : posted.exchange.senderFp = fingerprint c (keys posted.device)
  receiver : posted.exchange.receiverFp = posted.record.fingerprint

/-- An accepted request of a device was posted and encrypted by it. -/
private structure Traced (c : Primitives) (keys : ι → List UInt8) (posts : List (Posted ι))
    (received : Received ι) : Prop where
  plain : received.accepted.exchange.Plain
  exchange : received.accepted.exchange =
    received.request.exchange (fingerprint c (keys received.device))
  other : received.request.deviceFp ≠ fingerprint c (keys received.device)
  posted : Member c keys received.request.deviceFp → ∃ posted ∈ posts,
    posted.exchange = received.accepted.exchange ∧ posted.ts = received.request.ts ∧
      posted.sealedBody = received.request.body
  encrypted : Member c keys received.request.deviceFp → ∃ posted ∈ posts,
    posted.exchange = received.accepted.exchange ∧ posted.plaintext = received.accepted.body

/-- An opened response of a device was encrypted by it. -/
private structure TracedReply (c : Primitives) (keys : ι → List UInt8)
    (answers : List (Answered ι)) (opened : Opened ι) : Prop where
  answered : Member c keys opened.posted.record.fingerprint → ∃ answered ∈ answers,
    answered.received.accepted.exchange = opened.posted.exchange ∧
      answered.sealedBody = opened.body ∧ answered.plaintext = opened.plaintext

/-- Every message of the network can be traced. -/
private structure Traces (c : Primitives) (keys : ι → List UInt8) (network : Network ι) :
    Prop where
  me : ∀ device, (network.plane device).me = fingerprint c (keys device)
  waiting : ∀ device call, ∀ waiting ∈ (network.plane device).waiting call,
    OneLine waiting.1.deviceFp ∧ OneLine waiting.1.nonce
  sent : ∀ posted ∈ network.posted, Sent c keys posted
  received : ∀ received ∈ network.received, Traced c keys network.posted received
  answered : ∀ answered ∈ network.answered, answered.received ∈ network.received
  posted : ∀ opened ∈ network.opened, opened.posted ∈ network.posted
  opened : ∀ opened ∈ network.opened, TracedReply c keys network.answered opened

private theorem Traced.mono {c : Primitives} {keys : ι → List UInt8}
    {posts posts' : List (Posted ι)}
    {received : Received ι} (h : Traced c keys posts received) (hsub : posts ⊆ posts') :
    Traced c keys posts' received where
  plain := h.plain
  exchange := h.exchange
  other := h.other
  posted hmember := by
    obtain ⟨posted, hmem, hposted⟩ := h.posted hmember
    exact ⟨posted, hsub hmem, hposted⟩
  encrypted hmember := by
    obtain ⟨posted, hmem, hposted⟩ := h.encrypted hmember
    exact ⟨posted, hsub hmem, hposted⟩

private theorem TracedReply.mono {c : Primitives} {keys : ι → List UInt8}
    {answers answers' : List (Answered ι)} {opened : Opened ι}
    (h : TracedReply c keys answers opened) (hsub : answers ⊆ answers') :
    TracedReply c keys answers' opened where
  answered hmember := by
    obtain ⟨answered, hmem, hanswered⟩ := h.answered hmember
    exact ⟨answered, hsub hmem, hanswered⟩

section Steps

variable {c : Primitives} {keys : ι → List UInt8} {network : Network ι}

/-- What was authenticated as a request's tag is a posted request's tag. -/
theorem Traces.of_signed (h : Traces c keys network) {secret body : List UInt8} {ts : Int}
    {exchange : LinkExchange} (hplain : exchange.Plain)
    (hsigned : network.Signed c secret (linkAuthMessage c exchange ts body)) :
    ∃ posted ∈ network.posted, posted.exchange = exchange ∧ posted.ts = ts ∧
      c.sha256 posted.sealedBody = c.sha256 body := by
  cases hsigned with
  | inl htag =>
    obtain ⟨posted, hmem, -, hmessage⟩ := htag
    exact ⟨posted, hmem, linkAuthMessage_injective (h.sent posted hmem).plain hplain hmessage⟩
  | inr hcredential =>
    obtain ⟨credential, -, -, hmessage⟩ := hcredential
    exact absurd hmessage.symm (linkAuthMessage_ne_controlCredentialMessage _ _)

/-- What was encrypted as a request is a posted request's body. -/
theorem Traces.of_encrypted_request (h : Traces c keys network)
    {key body plaintext : List UInt8} {exchange : LinkExchange} (hplain : exchange.Plain)
    (hencrypted : network.Encrypted c key (requestAad exchange) body plaintext) :
    ∃ posted ∈ network.posted, posted.exchange = exchange ∧ posted.plaintext = plaintext := by
  cases hencrypted with
  | inl hrequest =>
    obtain ⟨posted, hmem, -, haad, -, hplaintext⟩ := hrequest
    exact ⟨posted, hmem, requestAad_injective (h.sent posted hmem).plain hplain haad, hplaintext⟩
  | inr hresponse =>
    obtain ⟨answered, hmem, -, haad, -⟩ := hresponse
    have hanswered := (h.received _ (h.answered answered hmem)).plain
    exact absurd haad.symm (requestAad_ne_responseAad hplain hanswered)

/-- What was encrypted as a response answers an accepted request of the exchange. -/
theorem Traces.of_encrypted_response (h : Traces c keys network)
    {key body plaintext : List UInt8} {exchange : LinkExchange} (hplain : exchange.Plain)
    (hencrypted : network.Encrypted c key (responseAad exchange) body plaintext) :
    ∃ answered ∈ network.answered, answered.received.accepted.exchange = exchange ∧
      answered.sealedBody = body ∧ answered.plaintext = plaintext := by
  cases hencrypted with
  | inl hrequest =>
    obtain ⟨posted, hmem, -, haad, -⟩ := hrequest
    exact absurd haad (requestAad_ne_responseAad (h.sent posted hmem).plain hplain)
  | inr hresponse =>
    obtain ⟨answered, hmem, -, haad, hbody, hplaintext⟩ := hresponse
    have hanswered := (h.received _ (h.answered answered hmem)).plain
    exact ⟨answered, hmem, responseAad_injective hanswered hplain haad, hbody, hplaintext⟩

/-- A request that `authorize` returns is traced to the call that posted it. -/
theorem Traces.traced_settled (h : Traces c keys network) {device : ι} {call : Nat}
    {request : AuthRequest} {now : Int} {answer : Except LinkError (Option PeerRecord)}
    {accepted : LinkRequest} (hwaiting : (network.plane device).waiting call = some (request, now))
    (hideal : network.Ideal c keys (.plane device (.settle call answer)))
    (hsettled : (network.plane device).settled c request now answer = .ok accepted) :
    Traced c keys network.posted ⟨device, request, accepted⟩ := by
  obtain ⟨record, plaintext, hanswer, hverified, hopened, haccepted⟩ :=
    DataPlane.settled_ok hsettled
  subst hanswer haccepted
  have hcall := hideal (request, now) hwaiting (some record) rfl record rfl
  have hshape := h.waiting device call (request, now) hwaiting
  have hme := h.me device
  have hplain : (request.exchange (network.plane device).me).Plain := by
    refine ⟨hcall.method, hcall.path, hshape.2, hshape.1, ?_⟩
    change OneLine (network.plane device).me
    rw [hme]
    exact oneLine_fingerprint c _
  refine ⟨hplain, congrArg request.exchange hme, hme ▸ hcall.other, ?_, ?_⟩
  · intro hmember
    obtain ⟨posted, hmem, hexchange, hts, hdigest⟩ :=
      h.of_signed hplain (hcall.code hmember hverified)
    exact ⟨posted, hmem, hexchange, hts, hcall.digest posted hmem hdigest⟩
  · intro hmember
    exact h.of_encrypted_request hplain (hcall.cipher hmember plaintext hopened)

private theorem traces_start (c : Primitives) (keys : ι → List UInt8) (clock : ι → Int) :
    Traces c keys (Network.start c keys clock) where
  me _ := rfl
  waiting _ _ _ hwaiting := nomatch hwaiting
  sent _ hmem := absurd hmem List.not_mem_nil
  received _ hmem := absurd hmem List.not_mem_nil
  answered _ hmem := absurd hmem List.not_mem_nil
  posted _ hmem := absurd hmem List.not_mem_nil
  opened _ hmem := absurd hmem List.not_mem_nil

variable [DecidableEq ι] {aeadSeal : AeadSeal}

/-- A step of a data plane. -/
theorem Traces.plane (h : Traces c keys network) (device : ι) (op : DataPlaneOp)
    (hideal : network.Ideal c keys (.plane device op)) :
    Traces c keys (network.step c aeadSeal (.plane device op)) where
  me other := by
    by_cases hdevice : other = device
    · subst hdevice
      simp [Network.step, DataPlane.me_step, h.me]
    · simp [Network.step, Function.update_of_ne hdevice, h.me]
  waiting other := by
    by_cases hdevice : other = device
    · subst hdevice
      simpa [Network.step] using waiting_step (h.waiting other) op
    · simpa [Network.step, Function.update_of_ne hdevice] using h.waiting other
  sent := h.sent
  received received hmem := by
    cases List.mem_append.mp hmem with
    | inl hold => exact h.received received hold
    | inr hnew =>
      rw [Option.mem_toList, Option.map_eq_some_iff] at hnew
      obtain ⟨handed, hhanded, rfl⟩ := hnew
      cases op with
      | settle call answer =>
        simp only [DataPlane.handsOver, Option.bind_eq_some_iff, Option.map_eq_some_iff] at hhanded
        obtain ⟨⟨request, now⟩, hwaiting, accepted, haccepted, rfl⟩ := hhanded
        apply h.traced_settled hwaiting hideal
        cases hsettled : (network.plane device).settled c request now answer with
        | error e => simp [hsettled, Except.toOption] at haccepted
        | ok other =>
          simp only [hsettled, Except.toOption, Option.some.injEq] at haccepted
          rw [haccepted]
      | tick seconds => cases hhanded
      | arrive call request => cases hhanded
      | pruneExpired => cases hhanded
  answered answered hmem := List.mem_append_left _ (h.answered answered hmem)
  posted := h.posted
  opened := h.opened

/-- A device posts a request. -/
theorem Traces.post (h : Traces c keys network) (device : ι) (record : PeerRecord)
    (linkProtocol : Nat) (path nonce : String) (bodyNonce : Vector UInt8 12)
    (plaintext : List UInt8) (hpath : OneLine path) (hnonce : OneLine nonce)
    (hrecord : OneLine record.fingerprint) :
    Traces c keys (network.step c aeadSeal
      (.post device record linkProtocol path nonce bodyNonce plaintext)) where
  me := h.me
  waiting := h.waiting
  sent posted hmem := by
    cases List.mem_append.mp hmem with
    | inl hold => exact h.sent posted hold
    | inr hnew =>
      rw [Option.mem_toList, postSealed] at hnew
      split at hnew
      · cases hnew
      · cases hnew
        have hme := h.me device
        have hpost : OneLine "POST" := by decide
        refine ⟨⟨hpost, hpath, hnonce, ?_, hrecord⟩, hme, rfl⟩
        change OneLine (network.plane device).me
        rw [hme]
        exact oneLine_fingerprint c _
  received received hmem := (h.received received hmem).mono (List.subset_append_left _ _)
  answered := h.answered
  posted opened hmem := List.mem_append_left _ (h.posted opened hmem)
  opened := h.opened

/-- A device answers a request that it accepted. -/
theorem Traces.respond (h : Traces c keys network) (number : Nat)
    (bodyNonce : Vector UInt8 12) (plaintext : List UInt8) :
    Traces c keys (network.step c aeadSeal (.respond number bodyNonce plaintext)) := by
  simp only [Network.step]
  split
  · exact h
  · next received hreceived =>
    exact {
      me := h.me
      waiting := h.waiting
      sent := h.sent
      received := h.received
      answered := by
        intro answered hmem
        cases List.mem_append.mp hmem with
        | inl hold => exact h.answered answered hold
        | inr hnew =>
          rw [List.mem_singleton] at hnew
          subst hnew
          exact List.mem_of_getElem? hreceived
      posted := h.posted
      opened := fun opened hmem ↦ (h.opened opened hmem).mono (List.subset_append_left _ _) }

/-- A response arrives. -/
theorem Traces.reply (h : Traces c keys network) (number : Nat) (enc : Option String)
    (body : List UInt8) (hideal : network.Ideal c keys (.reply number enc body)) :
    Traces c keys (network.step c aeadSeal (.reply number enc body)) := by
  simp only [Network.step]
  split
  · exact h
  · next posted hposted =>
    have hmem := List.mem_of_getElem? hposted
    split
    · exact h
    · next plaintext hopened =>
      exact {
        me := h.me
        waiting := h.waiting
        sent := h.sent
        received := h.received
        answered := h.answered
        posted := by
          intro opened hopenedMem
          cases List.mem_append.mp hopenedMem with
          | inl hold => exact h.posted opened hold
          | inr hnew =>
            rw [List.mem_singleton] at hnew
            subst hnew
            exact hmem
        opened := by
          intro opened hopenedMem
          cases List.mem_append.mp hopenedMem with
          | inl hold => exact h.opened opened hold
          | inr hnew =>
            rw [List.mem_singleton] at hnew
            subst hnew
            constructor
            intro hmember
            apply h.of_encrypted_response (h.sent posted hmem).plain
            apply hideal posted hposted hmember plaintext
            unfold Posted.openReply at hopened
            grind }

private theorem traces_step (h : Traces c keys network) (op : NetworkOp ι)
    (hideal : network.Ideal c keys op) : Traces c keys (network.step c aeadSeal op) := by
  cases op with
  | plane device op => exact h.plane device op hideal
  | post device record linkProtocol path nonce bodyNonce plaintext =>
    exact h.post device record linkProtocol path nonce bodyNonce plaintext hideal.1 hideal.2.1
      hideal.2.2
  | respond number bodyNonce plaintext => exact h.respond number bodyNonce plaintext
  | reply number enc body => exact h.reply number enc body hideal
  | credential device record =>
    simp only [Network.step]
    split
    · exact ⟨h.me, h.waiting, h.sent, h.received, h.answered, h.posted, h.opened⟩
    · exact h

end Steps

/-! ## Binding -/

/-- A request that a device accepted from one of the devices was posted by that one, for this
exchange, at this time and with this body. -/
def RequestsBound (c : Primitives) (keys : ι → List UInt8) (network : Network ι) : Prop :=
  ∀ received ∈ network.received, Member c keys received.request.deviceFp →
    ∃ posted ∈ network.posted, posted.device ≠ received.device ∧
      fingerprint c (keys posted.device) = received.request.deviceFp ∧
      posted.exchange = received.request.exchange (fingerprint c (keys received.device)) ∧
      posted.ts = received.request.ts ∧ posted.sealedBody = received.request.body

/-- A response that a device opened of one of the devices was sealed by that one, for a request
that it accepted of the exchange. -/
def ResponsesBound (c : Primitives) (keys : ι → List UInt8) (network : Network ι) : Prop :=
  ∀ opened ∈ network.opened, Member c keys opened.posted.record.fingerprint →
    ∃ answered ∈ network.answered, answered.received ∈ network.received ∧
      answered.received.device ≠ opened.posted.device ∧
      fingerprint c (keys answered.received.device) = opened.posted.record.fingerprint ∧
      answered.received.request.exchange (fingerprint c (keys answered.received.device)) =
        opened.posted.exchange ∧
      answered.sealedBody = opened.body ∧ answered.plaintext = opened.plaintext

/-- A device accepts no request with the nonce of one that it posted itself, and what it accepts
with another's nonce reads as it was posted. -/
def NoReflection (c : Primitives) (keys : ι → List UInt8) (network : Network ι) : Prop :=
  ∀ received ∈ network.received, Member c keys received.request.deviceFp →
    ∀ posted ∈ network.posted, posted.exchange.nonce = received.request.nonce →
      posted.device ≠ received.device ∧ posted.plaintext = received.accepted.body

/-- A response is opened only by the call whose very request it answers. -/
def NoReplay (c : Primitives) (keys : ι → List UInt8) (network : Network ι) : Prop :=
  ∀ opened ∈ network.opened, Member c keys opened.posted.record.fingerprint →
    ∀ answered ∈ network.answered, answered.sealedBody.take 12 = opened.body.take 12 →
      answered.received.accepted.exchange = opened.posted.exchange ∧
        answered.received.request.body = opened.posted.sealedBody ∧
        answered.received.accepted.body = opened.posted.plaintext

section Binding

variable {c : Primitives} {keys : ι → List UInt8} {network : Network ι}

private theorem Traces.requestsBound (h : Traces c keys network) :
    network.RequestsBound c keys := by
  intro received hmem hmember
  have htraced := h.received received hmem
  obtain ⟨posted, hposted, hexchange, hts, hbody⟩ := htraced.posted hmember
  rw [htraced.exchange] at hexchange
  have hsender : fingerprint c (keys posted.device) = received.request.deviceFp :=
    (h.sent posted hposted).sender.symm.trans (congrArg LinkExchange.senderFp hexchange)
  refine ⟨posted, hposted, ?_, hsender, hexchange, hts, hbody⟩
  intro hsame
  rw [hsame] at hsender
  exact htraced.other hsender.symm

private theorem Traces.responsesBound (h : Traces c keys network) :
    network.ResponsesBound c keys := by
  intro opened hmem hmember
  obtain ⟨answered, hanswered, hexchange, hbody, hplaintext⟩ :=
    (h.opened opened hmem).answered hmember
  have hreceived := h.answered answered hanswered
  have htraced := h.received _ hreceived
  have hsent := h.sent _ (h.posted opened hmem)
  rw [htraced.exchange] at hexchange
  have hreceiver : fingerprint c (keys answered.received.device) =
      opened.posted.record.fingerprint :=
    (congrArg LinkExchange.receiverFp hexchange).trans hsent.receiver
  have hsender : answered.received.request.deviceFp = fingerprint c (keys opened.posted.device) :=
    (congrArg LinkExchange.senderFp hexchange).trans hsent.sender
  refine ⟨answered, hanswered, hreceived, ?_, hreceiver, hexchange, hbody, hplaintext⟩
  intro hsame
  apply htraced.other
  rw [hsender, hsame]

private theorem Traces.noReflection (h : Traces c keys network) (hfresh : network.Fresh) :
    network.NoReflection c keys := by
  intro received hmem hmember posted hposted hnonce
  have htraced := h.received received hmem
  obtain ⟨source, hsource, hdevice, -, hexchange, -⟩ := h.requestsBound received hmem hmember
  obtain ⟨encrypted, hencrypted, hencryptedExchange, hplaintext⟩ := htraced.encrypted hmember
  have hnonce' : posted.exchange.nonce = encrypted.exchange.nonce := by
    rw [hencryptedExchange, htraced.exchange]
    exact hnonce
  have hsame := hfresh.posted posted hposted source hsource (by rw [hnonce, hexchange]; rfl)
  have hsame' := hfresh.posted posted hposted encrypted hencrypted hnonce'
  exact ⟨hsame ▸ hdevice, hsame' ▸ hplaintext⟩

private theorem Traces.noReplay (h : Traces c keys network) (hfresh : network.Fresh) :
    network.NoReplay c keys := by
  intro opened hmem hmember answered hanswered hnonce
  obtain ⟨source, hsource, hexchange, hbody, -⟩ := (h.opened opened hmem).answered hmember
  have hsame := hfresh.answered answered hanswered source hsource (by rw [hnonce, hbody])
  subst hsame
  have hreceived := h.answered answered hanswered
  have hposted := h.posted opened hmem
  have htraced := h.received _ hreceived
  have hfp : answered.received.request.deviceFp = opened.posted.exchange.senderFp := by
    rw [← hexchange, htraced.exchange]
    rfl
  have hmember' : Member c keys answered.received.request.deviceFp :=
    ⟨opened.posted.device, by rw [hfp, (h.sent _ hposted).sender]⟩
  obtain ⟨request, hrequest, -, -, hrequestExchange, -, hrequestBody⟩ :=
    h.requestsBound _ hreceived hmember'
  have hnonce' : opened.posted.exchange.nonce = answered.received.request.nonce := by
    rw [← hexchange, htraced.exchange]
    rfl
  have hrequestSame := hfresh.posted request hrequest _ hposted
    (by rw [hrequestExchange, hnonce']; rfl)
  rw [hrequestSame] at hrequestBody
  refine ⟨hexchange, hrequestBody.symm, ?_⟩
  exact (h.noReflection hfresh _ hreceived hmember' _ hposted hnonce').2.symm

end Binding

end Network

variable [DecidableEq ι]

/-- Messages of the data plane tell their fields and their direction. In every run, what a device
accepts or opens of another was produced by that one for the exchange, and with nonces that do not
repeat no request is accepted by its own sender and no response is opened for another request. -/
theorem data_plane_bound (c : Primitives) (aeadSeal : AeadSeal) (keys : ι → List UInt8)
    (clock : ι → Int) (ops : List (NetworkOp ι))
    (hideal : EveryStep (Network.step c aeadSeal) (Network.Ideal c keys)
      (Network.start c keys clock) ops) :
    (∀ exchange exchange' : LinkExchange, exchange.Plain → exchange'.Plain →
      ∀ ts ts' body body',
        (linkAuthMessage c exchange ts body = linkAuthMessage c exchange' ts' body' →
          exchange = exchange' ∧ ts = ts' ∧ c.sha256 body = c.sha256 body') ∧
        (requestAad exchange = requestAad exchange' → exchange = exchange') ∧
        (responseAad exchange = responseAad exchange' → exchange = exchange') ∧
        requestAad exchange ≠ responseAad exchange' ∧
        linkAuthMessage c exchange ts body ≠ requestAad exchange' ∧
        linkAuthMessage c exchange ts body ≠ responseAad exchange') ∧
    let network := run (Network.step c aeadSeal) (Network.start c keys clock) ops
    network.RequestsBound c keys ∧ network.ResponsesBound c keys ∧
      (network.Fresh → network.NoReflection c keys ∧ network.NoReplay c keys) := by
  constructor
  · intro exchange exchange' h h' ts ts' body body'
    exact ⟨linkAuthMessage_injective h h', requestAad_injective h h',
      responseAad_injective h h', requestAad_ne_responseAad h h',
      linkAuthMessage_ne_requestAad h h', linkAuthMessage_ne_responseAad h h'⟩
  · have hstep : ∀ (network : Network ι) (op : NetworkOp ι), network.Traces c keys →
        network.Ideal c keys op → (network.step c aeadSeal op).Traces c keys :=
      fun _ op htraces hop ↦ Network.traces_step htraces op hop
    have htraces := run_invariant hstep (Network.traces_start c keys clock) hideal
    exact ⟨htraces.requestsBound, htraces.responsesBound,
      fun hfresh ↦ ⟨htraces.noReflection hfresh, htraces.noReplay hfresh⟩⟩

end Network

/-! ## A request and its response -/

/-- As many bytes of a number. -/
def bytesOf (width n : Nat) : Vector UInt8 width :=
  ⟨((List.range width).map fun i ↦ UInt8.ofNat (n / 256 ^ (width - 1 - i))).toArray, by simp⟩

/-- Identities of two devices. -/
def wireKeys (device : Bool) : List UInt8 := List.replicate 32 (if device then 2 else 1)

/-- The record that the other device has of a device. -/
def wireRecord (device : Bool) : PeerRecord :=
  { fingerprint :=
      if device then "75877bb41d393b5fb8455ce60ecd8dda001d06316496b14dfa7f895656eeca4a"
      else "72cd6e8422c407fb6d098690f1130b7ded7ec2f7f5e1d30bd9d521f015363793"
    linkSecret := List.replicate 32 7 }

/-- What a request of the first device is bound to. -/
def wireExchange : LinkExchange :=
  ⟨"POST", "/api/v1/link/tasks", "0123456789abcdef0123456789abcdef",
    (wireRecord false).fingerprint, (wireRecord true).fingerprint⟩

/-- The request's body: the encrypted text of two braces. -/
def wireBody : List UInt8 :=
  List.replicate 12 1 ++ (bytesOf 18 0x5185ee0ec9129b233011e5d34be6165079ef).toList

/-- The response's body: the encrypted text of two brackets. -/
def wireReply : List UInt8 :=
  List.replicate 12 2 ++ (bytesOf 18 0x39cb90d781e698b025ccec1298c4ba0befd4).toList

/-- The key of the link's cipher. -/
def wireAeadKey : List UInt8 :=
  (bytesOf 32 0xfbfe23d4cc740e89751bcfc2269d27e7c67cc7b2cda6662eae6af8329d7d5460).toList

/-- The request's tag. -/
def wireTag : String := "ea6f6ef0ebb1ebaa2e4698aff468586b014f065a9827b5cc0a76ec6d02db1c2c"

/-- The functions of other packages on the texts of the sample. -/
def wirePrimitives : Primitives where
  sha256 text :=
    if text = wireKeys false then
      bytesOf 32 0x72cd6e8422c407fb6d098690f1130b7ded7ec2f7f5e1d30bd9d521f015363793
    else if text = wireKeys true then
      bytesOf 32 0x75877bb41d393b5fb8455ce60ecd8dda001d06316496b14dfa7f895656eeca4a
    else if text = wireBody then
      bytesOf 32 0x131ab6c22774a63a23989fa5d9c58d23b599cae52df04729c1d2aedbf3db9a14
    else Vector.replicate 32 0
  hmacSha256 secret message :=
    if secret = List.replicate 32 7 ∧ message = utf8
        s!"fluxlink-v2\n{wireExchange.method}\n{wireExchange.path}\n1000\n{wireExchange.nonce}\n{wireExchange.senderFp}\n{wireExchange.receiverFp}\n131ab6c22774a63a23989fa5d9c58d23b599cae52df04729c1d2aedbf3db9a14"
    then (bytesOf 32 0xea6f6ef0ebb1ebaa2e4698aff468586b014f065a9827b5cc0a76ec6d02db1c2c).toList
    else List.replicate 32 0
  hkdfSha256 _ _ _ length := if length = 32 then some wireAeadKey else none
  aeadOpen key nonce aad ciphertext :=
    if key = wireAeadKey ∧ nonce ++ ciphertext = wireBody ∧ aad = requestAad wireExchange then
      some (utf8 "\x7b\x7d")
    else if key = wireAeadKey ∧ nonce ++ ciphertext = wireReply ∧
        aad = responseAad wireExchange then some (utf8 "[]")
    else none
  identityPublic := plainPrimitives.identityPublic
  identitySign := plainPrimitives.identitySign
  identityVerify := plainPrimitives.identityVerify
  ephemeralPublic := plainPrimitives.ephemeralPublic
  diffieHellman := plainPrimitives.diffieHellman

/-- The cipher on the texts of the sample. -/
def wireSeal : AeadSeal := fun key nonce aad plaintext ↦
  if key = wireAeadKey ∧ nonce = List.replicate 12 1 ∧ aad = requestAad wireExchange ∧
      plaintext = utf8 "\x7b\x7d" then some (wireBody.drop 12)
  else if key = wireAeadKey ∧ nonce = List.replicate 12 2 ∧ aad = responseAad wireExchange ∧
      plaintext = utf8 "[]" then some (wireReply.drop 12)
  else none

/-- The sample's request as it arrives. -/
def wireRequest : AuthRequest :=
  ⟨"POST", "/api/v1/link/tasks", wireExchange.senderFp, 1000, wireExchange.nonce, wireBody,
    wireTag, "v2"⟩

/-- The first device posts a request, the other accepts and answers it; what was posted is also
sent back to the first device, under either name. -/
def wireOps : List (NetworkOp Bool) :=
  [.post false (wireRecord true) 2 "/api/v1/link/tasks" wireExchange.nonce
      (Vector.replicate 12 1) (utf8 "\x7b\x7d"),
    .plane true (.arrive 0 wireRequest),
    .plane true (.settle 0 (.ok (some (wireRecord false)))),
    .plane false (.arrive 0 wireRequest),
    .plane false (.settle 0 (.ok none)),
    .plane false (.arrive 1 { wireRequest with deviceFp := wireExchange.receiverFp }),
    .plane false (.settle 1 (.ok (some (wireRecord true)))),
    .respond 0 (Vector.replicate 12 2) (utf8 "[]"),
    .reply 0 (some "v2") wireReply]

/-- One request and its reply over a network. -/
theorem data_plane_bound_sample :
    let network := run (Network.step wirePrimitives wireSeal)
      (Network.start wirePrimitives wireKeys fun _ ↦ 1000) wireOps
    network.received.length = 1 ∧ network.opened.length = 1 ∧
      network.RequestsBound wirePrimitives wireKeys ∧
      network.ResponsesBound wirePrimitives wireKeys ∧
      network.NoReflection wirePrimitives wireKeys ∧
      network.NoReplay wirePrimitives wireKeys := by
  intro network
  have hbound := (data_plane_bound wirePrimitives wireSeal wireKeys (fun _ ↦ 1000) wireOps
    (by decide +kernel)).2
  have hsingle {α : Type} {l : List α} (h : l.length = 1) : ∀ x ∈ l, ∀ y ∈ l, x = y := by
    obtain ⟨a, rfl⟩ := List.length_eq_one_iff.mp h
    simp
  have hcounts : network.posted.length = 1 ∧ network.answered.length = 1 ∧
      network.received.length = 1 ∧ network.opened.length = 1 := by decide +kernel
  obtain ⟨hposted, hanswered, hcounts⟩ := hcounts
  have hfresh : network.Fresh :=
    ⟨fun posted hmem posted' hmem' _ ↦ hsingle hposted posted hmem posted' hmem',
      fun answered hmem answered' hmem' _ ↦ hsingle hanswered answered hmem answered' hmem'⟩
  have hreplays := hbound.2.2 hfresh
  exact ⟨hcounts.1, hcounts.2, hbound.1, hbound.2.1, hreplays.1, hreplays.2⟩

end Link
