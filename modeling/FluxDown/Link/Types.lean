import Mathlib

/-!
# Types of device links

Library `Link`. Errors of the link subsystem and the rows of the roster of paired devices.
-/

namespace Link

/-- Errors of the link subsystem (`src/native/link/src/error.rs:3–93`); those of sockets and
stored files that the modelled functions never return are left out. -/
inductive LinkError where
  | invalidCode
  | sessionExpired
  | badSignature
  | commitmentMismatch
  | unsupportedVersion
  | selfPairing
  | throttled
  | rejectedByPeer
  | pairingTimeout
  | identityMismatch (address : String)
  | badPayload (message : String)
  | unauthorized
  | clockSkew
  | notPaired
  | store (message : String)
deriving DecidableEq

/-- Ways to reach a paired device (`src/native/link/src/types.rs:31–40`). -/
inductive TransportKind where
  | direct
  | iroh
  | relay
deriving DecidableEq

/-- An address at which a paired device may be reached (`types.rs:71–79`). -/
structure PeerCandidate where
  kind : TransportKind
  address : String
deriving DecidableEq

/-- The most addresses kept of a device (`types.rs:81–85`). -/
def maxDirectCandidates : Nat := 4

/-- A paired device (`types.rs:110–172`). -/
structure PeerRecord where
  fingerprint : String := ""
  identityPub : List UInt8 := []
  name : String := ""
  platform : Option String := none
  linkSecret : List UInt8 := []
  candidates : List PeerCandidate := []
  pairedAt : Int := 0
  lastSeenAt : Int := 0
  appVersion : Option String := none
  cloudDeviceId : Option String := none
  defaultSaveDir : Option String := none
  pathStyle : Option String := none
  customName : Option String := none
  revoked : Bool := false
  grantsControl : Bool := false
  controllable : Bool := false
deriving DecidableEq

end Link
