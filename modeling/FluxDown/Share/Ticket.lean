import FluxDown.Share.Hashing

/-!
# Tickets

Library `Share`. A ticket is a signed payload that names its receiver, its scope and, in a swarm,
the root of one content. Base64, JSON and signatures come from other packages and are
parameters, together with the hash function.
-/

namespace Share

/-- What a ticket says (`src/native/share/src/types.rs:207–227`). -/
structure TicketPayload where
  v : Nat
  kid : String
  sid : String
  rep : String
  exp : Nat
  scope : String
  root : Option String
  pri : Nat
deriving DecidableEq

/-- Functions of other packages. -/
structure Primitives where
  /-- Keys of endpoints and of issuers. -/
  PublicKey : Type
  /-- The text of an endpoint. -/
  toZ32 : PublicKey → String
  /-- Ed25519 verification of a signature. -/
  verify : PublicKey → List UInt8 → Vector UInt8 64 → Bool
  /-- BLAKE3. -/
  blake3 : List UInt8 → Hash
  /-- Base64 of URLs, with or without padding. -/
  decodeBase64 : String → Option (List UInt8)
  /-- The payload in JSON. -/
  parsePayload : List UInt8 → Option TicketPayload

variable (p : Primitives)

/-- A ticket (`types.rs:231–236`). -/
structure Ticket where
  raw : String
  payload : TicketPayload
  payloadBytes : List UInt8
  signature : Vector UInt8 64
deriving DecidableEq

/-- Why a ticket was not accepted (`src/native/share/src/ticket.rs:38–69`). -/
inductive TicketError where
  | malformed (reason : String)
  | unsupportedVersion (v : Nat)
  | unknownKey (kid : String)
  | keyRetired (kid : String)
  | badSignature
  | wrongScope (scope : String)
  | expired
  | wrongShare
  | wrongPeer
deriving DecidableEq

/-- The scope of swarm tickets (`ticket.rs:24–25`). -/
def scopeSwarm : String := "swarm"

/-- The version of tickets (`ticket.rs:27–28`). -/
def ticketVersion : Nat := 1

/-- Parse a ticket (`ticket.rs:148–174`). -/
def parseTicket (raw : String) : Except TicketError Ticket :=
  let (payload, rest) := raw.toList.span (· != '.')
  match rest with
  | [] => .error (.malformed "missing '.' separator")
  | _ :: signature =>
    if '.' ∈ signature then .error (.malformed "too many '.' separators")
    else match p.decodeBase64 (String.ofList payload) with
      | none => .error (.malformed "payload is not base64url")
      | some payloadBytes =>
        match p.decodeBase64 (String.ofList signature) with
        | none => .error (.malformed "signature is not base64url")
        | some signature =>
          if h : signature.length = 64 then
            match p.parsePayload payloadBytes with
            | none => .error (.malformed "payload is not the expected JSON")
            | some payload =>
              .ok ⟨raw, payload, payloadBytes, ⟨signature.toArray, by simpa using h⟩⟩
          else .error (.malformed "signature is not 64 bytes")

/-- A key of the ring (`ticket.rs:93–97`). -/
structure RingKey where
  key : p.PublicKey
  notAfter : Option Nat

/-- The keys of issuers (`ticket.rs:99–103`). -/
abbrev KeyRing := String → Option (RingKey p)

/-- What a ticket is checked against (`ticket.rs:176–187`). -/
structure TicketExpectation where
  nowUnix : Nat
  shareId : Option String
  peer : p.PublicKey
  scopes : List String

/-- Equal up to the case of the letters of ASCII. -/
def eqIgnoreAsciiCase (s t : String) : Bool :=
  s.toList.map Char.toLower == t.toList.map Char.toLower

variable {p}

/-- Check a ticket (`ticket.rs:189–225`). -/
def verifyTicket (ring : KeyRing p) (ticket : Ticket) (expect : TicketExpectation p) :
    Except TicketError TicketPayload :=
  let payload := ticket.payload
  if payload.v ≠ ticketVersion then .error (.unsupportedVersion payload.v)
  else match ring payload.kid with
    | none => .error (.unknownKey payload.kid)
    | some ringKey =>
      if ringKey.notAfter.any (· < expect.nowUnix) then .error (.keyRetired payload.kid)
      else if !p.verify ringKey.key ticket.payloadBytes ticket.signature then .error .badSignature
      else if payload.scope ∉ expect.scopes then .error (.wrongScope payload.scope)
      else if payload.exp ≤ expect.nowUnix then .error .expired
      else if expect.shareId.any (· != payload.sid) then .error .wrongShare
      else if !eqIgnoreAsciiCase (p.toZ32 expect.peer) payload.rep then .error .wrongPeer
      else .ok payload

end Share
