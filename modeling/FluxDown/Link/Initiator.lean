import FluxDown.Base.Run
import FluxDown.Link.Text
import FluxDown.Link.Transcript
import FluxDown.Link.Types

/-!
# The initiator of a pairing

Library `Link`. The initiator sends a hello, answers the responder's reply with a reveal, checks
the responder's signature and keeps the record of the responder. Its calls come one after
another; what the network delivers is arbitrary.
-/

namespace Link

/-- The reply to a reveal (`src/native/link/src/pairing.rs:306–310`). -/
structure RevealResponse where
  responderSig : Vector UInt8 64
deriving DecidableEq

/-- A handshake as the initiator sees it (`pairing.rs:1032–1041`). -/
structure Handshake where
  z : Bytes32
  transcript : Transcript
  responderName : String
  responderPlatform : Option String
  responderAppVersion : Option String
  responderAddr : String
deriving DecidableEq

/-- The initiator (`pairing.rs:1011–1030`). -/
structure PairingInitiator where
  identity : LinkIdentity
  ephSecret : Bytes32
  ephPub : Bytes32
  nonce : Bytes32
  requestControl : Bool
  helloDigest : Option Bytes32
  pending : Option Handshake
  verified : Option Handshake
deriving DecidableEq

namespace PairingInitiator

/-- An initiator with its random bytes (`pairing.rs:1045–1063`). -/
def new (c : Primitives) (identity : LinkIdentity) (seed nonce : Bytes32) : PairingInitiator :=
  ⟨identity, seed, c.ephemeralPublic seed, nonce, false, none, none, none⟩

/-- Ask for control of the responder, before the hello (`pairing.rs:1065–1071`). -/
def withControl (i : PairingInitiator) (request : Bool) : PairingInitiator :=
  { i with requestControl := request }

/-- The hello without its signature (`pairing.rs:1083–1094`). -/
def unsignedHello (c : Primitives) (i : PairingInitiator) (code : String) (selfInfo : SelfInfo)
    (initiatorAddrs : List String) : HelloRequest where
  protocolVersion := pairingProtocolVersion
  code := code
  initiatorIdPub := i.identity.publicBytes c
  initiatorCommit := ephCommitment c i.ephPub i.nonce
  initiatorSig := Vector.replicate 64 0
  name := selfInfo.name
  platform := selfInfo.platform
  appVersion := selfInfo.appVersion
  initiatorAddrs := initiatorAddrs
  requestControl := i.requestControl

/-- The hello and its digest (`pairing.rs:1073–1099`). -/
def buildHello (c : Primitives) (i : PairingInitiator) (code : String) (selfInfo : SelfInfo)
    (initiatorAddrs : List String) : PairingInitiator × HelloRequest :=
  let hello := i.unsignedHello c code selfInfo initiatorAddrs
  let message := helloMessage hello
  ({ i with helloDigest := some (hashTranscript c message) },
    { hello with initiatorSig := i.identity.sign c message })

/-- The transcript as the initiator sees it (`pairing.rs:1142–1155`). -/
def transcriptOf (c : Primitives) (i : PairingInitiator) (helloDigest : Bytes32)
    (resp : HelloResponse) : Transcript where
  helloDigest := helloDigest
  initiatorIdPub := i.identity.publicBytes c
  responderIdPub := resp.responderIdPub
  initiatorEphPub := i.ephPub
  responderEphPub := resp.responderEphPub
  initiatorNonce := i.nonce
  responderNonce := resp.responderNonce
  responderInfoDigest := responderInfoDigest c resp.name resp.platform resp.appVersion

/-- The reply to the hello is checked and answered by the reveal (`pairing.rs:1101–1173`). -/
def onHelloResponse (c : Primitives) (i : PairingInitiator) (resp : HelloResponse)
    (responderAddr : String) (knownFingerprints : List String) :
    PairingInitiator × Except LinkError RevealRequest :=
  if resp.protocolVersion ≠ pairingProtocolVersion then (i, .error .unsupportedVersion)
  else match i.helloDigest with
    | none => (i, .error .sessionExpired)
    | some helloDigest =>
      if resp.responderIdPub = i.identity.publicBytes c then (i, .error .selfPairing)
      else if !knownFingerprints.isEmpty && !knownFingerprints.any fun known ↦
          known.toLower == (fingerprint c resp.responderIdPub.toList).toLower then
        (i, .error (.identityMismatch responderAddr))
      else
        let z := c.diffieHellman i.ephSecret resp.responderEphPub
        if isAllZero z then (i, .error (.badPayload "degenerate x25519 public key"))
        else
          let handshake : Handshake :=
            { z := z
              transcript := i.transcriptOf c helloDigest resp
              responderName := sanitizeText resp.name maxNameChars
              responderPlatform := sanitizeOptional resp.platform maxPlatformChars
              responderAppVersion := sanitizeOptional resp.appVersion maxVersionChars
              responderAddr := responderAddr }
          ({ i with verified := none, pending := some handshake },
            .ok ⟨resp.sessionId, i.ephPub, i.nonce⟩)

/-- The responder's signature is checked, and the code to compare is shown
(`pairing.rs:1175–1191`). -/
def onRevealResponse (c : Primitives) (i : PairingInitiator) (resp : RevealResponse) :
    PairingInitiator × Except LinkError String :=
  match i.pending with
  | none => (i, .error .sessionExpired)
  | some handshake =>
    let i := { i with pending := none }
    if !c.identityVerify handshake.transcript.responderIdPub
        handshake.transcript.responderSigningMessage resp.responderSig then
      (i, .error .badSignature)
    else
      ({ i with verified := some handshake },
        .ok (deriveSas c handshake.z (handshake.transcript.hash c)))

/-- The record of the responder (`pairing.rs:1193–1219`). -/
def finalize (c : Primitives) (i : PairingInitiator) (now : Int) : Except LinkError PeerRecord :=
  match i.verified with
  | none => .error .sessionExpired
  | some n => .ok
    { fingerprint := fingerprint c n.transcript.responderIdPub.toList
      identityPub := n.transcript.responderIdPub.toList
      name := if n.responderName.isEmpty then
          String.ofList ((fingerprint c n.transcript.responderIdPub.toList).toList.take 12)
        else n.responderName
      platform := n.responderPlatform
      linkSecret := deriveLinkKey c n.z (n.transcript.hash c)
      candidates := [⟨.direct, n.responderAddr⟩]
      pairedAt := now
      lastSeenAt := now
      appVersion := n.responderAppVersion
      controllable := i.requestControl }

end PairingInitiator

/-! ## Runs -/

/-- What happens at the initiator. -/
inductive InitiatorOp where
  | buildHello (code : String) (selfInfo : SelfInfo) (initiatorAddrs : List String)
  | onHelloResponse (resp : HelloResponse) (responderAddr : String) (knownFingerprints : List String)
  | onRevealResponse (resp : RevealResponse)

/-- What happened at the initiator, for statements about runs. -/
inductive InitiatorEvent where
  /-- A hello was sent. -/
  | sent (hello : HelloRequest)
  /-- A reply to the hello was answered. -/
  | answered (resp : HelloResponse) (handshake : Handshake)
  /-- The responder's signature was right. -/
  | verified (handshake : Handshake)
deriving DecidableEq

/-- An initiator and what happened to it. -/
structure InitiatorRun where
  initiator : PairingInitiator
  history : List InitiatorEvent

namespace InitiatorRun

/-- One step of the initiator. -/
def step (c : Primitives) (r : InitiatorRun) : InitiatorOp → InitiatorRun
  | .buildHello code selfInfo initiatorAddrs =>
    let (initiator, hello) := r.initiator.buildHello c code selfInfo initiatorAddrs
    ⟨initiator, r.history ++ [.sent hello]⟩
  | .onHelloResponse resp responderAddr knownFingerprints =>
    match r.initiator.onHelloResponse c resp responderAddr knownFingerprints with
    | (initiator, .ok _) =>
      ⟨initiator, r.history ++ initiator.pending.toList.map (.answered resp)⟩
    | (initiator, .error _) => ⟨initiator, r.history⟩
  | .onRevealResponse resp =>
    match r.initiator.onRevealResponse c resp with
    | (initiator, .ok _) => ⟨initiator, r.history ++ initiator.verified.toList.map .verified⟩
    | (initiator, .error _) => ⟨initiator, r.history⟩

end InitiatorRun

end Link
