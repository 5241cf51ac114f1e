import FluxDown.Link.Crypto
import FluxDown.Link.Types

/-!
# Messages and transcript of pairing

Library `Link`. The initiator sends a hello and a reveal, the responder replies to both. The
bytes the initiator signs frame each field by its length; the transcript both sides hash joins
values of fixed length.
-/

namespace Link

/-- Version of the protocol (`src/native/link/src/pairing.rs:71–73`). -/
def pairingProtocolVersion : Nat := 2

/-- What a device reports of itself (`pairing.rs:252–262`). -/
structure SelfInfo where
  name : String
  platform : Option String
  appVersion : Option String
  cloudDeviceId : Option String
deriving DecidableEq

/-- The hello of an initiator (`pairing.rs:264–282`). -/
structure HelloRequest where
  protocolVersion : Nat
  code : String
  initiatorIdPub : Bytes32
  initiatorCommit : Bytes32
  initiatorSig : Vector UInt8 64
  name : String
  platform : Option String
  appVersion : Option String
  initiatorAddrs : List String
  requestControl : Bool
deriving DecidableEq

/-- The reply to a hello (`pairing.rs:283–296`). -/
structure HelloResponse where
  protocolVersion : Nat
  sessionId : String
  responderEphPub : Bytes32
  responderNonce : Bytes32
  responderIdPub : Bytes32
  name : String
  platform : Option String
  appVersion : Option String
deriving DecidableEq

/-- The reveal of an initiator (`pairing.rs:298–304`). -/
structure RevealRequest where
  sessionId : String
  initiatorEphPub : Bytes32
  initiatorNonce : Bytes32
deriving DecidableEq

/-- What the responder makes of a reveal: its signature, which is sent, and what it shows
(`pairing.rs:306–323`). -/
structure RevealAccepted where
  responderSig : Vector UInt8 64
  sas : String
  peerName : String
  peerPlatform : Option String
  peerIdPub : Bytes32
  requestControl : Bool
deriving DecidableEq

/-! ## Signed bytes -/

/-- A number of 32 bits, the low byte first. -/
def u32le (n : Nat) : List UInt8 :=
  [UInt8.ofNat n, UInt8.ofNat (n / 2 ^ 8), UInt8.ofNat (n / 2 ^ 16), UInt8.ofNat (n / 2 ^ 24)]

/-- A field with its length before it; the length keeps its low 32 bits
(`pairing.rs:139–145`). -/
def framed (bytes : List UInt8) : List UInt8 := u32le bytes.length ++ bytes

/-- Label of the hello (`pairing.rs:148`). -/
def helloDomain : List UInt8 := utf8 "fluxdown-link-hello-v2"

/-- Label of the transcript (`pairing.rs:149`). -/
def sessionDomain : List UInt8 := utf8 "fluxdown-link-session-v2"

/-- Label of the responder's signature (`pairing.rs:150`). -/
def responderSigDomain : List UInt8 := utf8 "fluxdown-link-resp-v2"

/-- Label of what the responder reports (`pairing.rs:151`). -/
def responderInfoDomain : List UInt8 := utf8 "fluxdown-link-resp-info-v2"

/-- Label of the request for control (`pairing.rs:152–153`). -/
def controlDomain : List UInt8 := utf8 "fluxdown-link-control-v1"

/-- The bytes the initiator signs (`pairing.rs:155–187`). -/
def helloMessage (req : HelloRequest) : List UInt8 :=
  helloDomain ++ framed (utf8 req.code) ++ req.initiatorIdPub.toList ++
    req.initiatorCommit.toList ++ framed (utf8 req.name) ++
    framed (utf8 (req.platform.getD "")) ++ framed (utf8 (req.appVersion.getD "")) ++
    u32le req.initiatorAddrs.length ++ req.initiatorAddrs.flatMap (fun addr ↦ framed (utf8 addr)) ++
    if req.requestControl then framed controlDomain else []

/-- The bytes of what the responder reports (`pairing.rs:196–200`). -/
def responderInfo (name : String) (platform appVersion : Option String) : List UInt8 :=
  responderInfoDomain ++ framed (utf8 name) ++ framed (utf8 (platform.getD "")) ++
    framed (utf8 (appVersion.getD ""))

/-- The digest of what the responder reports (`pairing.rs:189–202`). -/
def responderInfoDigest (c : Primitives) (name : String) (platform appVersion : Option String) :
    Bytes32 :=
  hashTranscript c (responderInfo name platform appVersion)

/-- The transcript of a handshake (`pairing.rs:204–217`). -/
structure Transcript where
  helloDigest : Bytes32
  initiatorIdPub : Bytes32
  responderIdPub : Bytes32
  initiatorEphPub : Bytes32
  responderEphPub : Bytes32
  initiatorNonce : Bytes32
  responderNonce : Bytes32
  responderInfoDigest : Bytes32
deriving DecidableEq

namespace Transcript

/-- The bytes of the transcript (`pairing.rs:220–236`). -/
def bytes (t : Transcript) : List UInt8 :=
  sessionDomain ++ [t.helloDigest, t.initiatorIdPub, t.responderIdPub, t.initiatorEphPub,
    t.responderEphPub, t.initiatorNonce, t.responderNonce, t.responderInfoDigest].flatMap
      Vector.toList

/-- The digest of the transcript (`pairing.rs:238–241`). -/
def hash (c : Primitives) (t : Transcript) : Bytes32 := hashTranscript c t.bytes

/-- The bytes the responder signs (`pairing.rs:243–249`). -/
def responderSigningMessage (t : Transcript) : List UInt8 := responderSigDomain ++ t.bytes

end Transcript

/-- The identity of a device (`src/native/link/src/identity.rs:17–24`). -/
structure LinkIdentity where
  seed : Bytes32
deriving DecidableEq

namespace LinkIdentity

/-- The public key (`identity.rs:56–59`). -/
def publicBytes (c : Primitives) (identity : LinkIdentity) : Bytes32 := c.identityPublic identity.seed

/-- Sign a message (`identity.rs:67–70`). -/
def sign (c : Primitives) (identity : LinkIdentity) (message : List UInt8) : Vector UInt8 64 :=
  c.identitySign identity.seed message

end LinkIdentity

/-- A shared secret of zeros comes from a degenerate public key (`pairing.rs:446–452`). -/
def isAllZero (bytes : Bytes32) : Bool := bytes.toList.foldl (fun acc b ↦ acc ||| b) 0 == 0

end Link
