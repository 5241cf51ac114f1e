import Mathlib

/-!
# Cryptographic primitives of device links

Library `Link`. Hash, key derivation, message authentication, encryption, signatures and key
agreement come from other packages and are fields of `Primitives`. The functions of the link
crate that build on them fix the salts, labels and messages.
-/

namespace Link

/-- Fixed-length keys, digests and nonces. -/
abbrev Bytes32 := Vector UInt8 32

/-- The bytes of a text. -/
def utf8 (text : String) : List UInt8 := text.toUTF8.data.toList

/-- Texts have different bytes. -/
theorem utf8_injective : Function.Injective utf8 := by
  intro s t h
  apply String.toByteArray_inj.mp
  have hdata : s.toByteArray.data = t.toByteArray.data := Array.toList_inj.mp h
  cases hs : s.toByteArray with
  | mk bytes =>
    cases ht : t.toByteArray with
    | mk bytes' =>
      rw [hs, ht] at hdata
      exact congrArg ByteArray.mk hdata

/-- Hexadecimal digits of bytes, in lower case. -/
def hexEncode (bytes : List UInt8) : String :=
  String.ofList (bytes.flatMap fun byte ↦
    [Nat.digitChar (byte.toNat / 16), Nat.digitChar (byte.toNat % 16)])

/-- Functions of other packages. -/
structure Primitives where
  /-- SHA-256. -/
  sha256 : List UInt8 → Bytes32
  /-- HMAC with SHA-256 of a key and a message. -/
  hmacSha256 : List UInt8 → List UInt8 → List UInt8
  /-- HKDF with SHA-256: salt, key, info and length; none where the length is out of range. -/
  hkdfSha256 : List UInt8 → List UInt8 → List UInt8 → Nat → Option (List UInt8)
  /-- ChaCha20-Poly1305: key, nonce, associated data, ciphertext. -/
  aeadOpen : List UInt8 → List UInt8 → List UInt8 → List UInt8 → Option (List UInt8)
  /-- Ed25519 public key of a seed. -/
  identityPublic : Bytes32 → Bytes32
  /-- Ed25519 signature of a message under a seed. -/
  identitySign : Bytes32 → List UInt8 → Vector UInt8 64
  /-- Ed25519 verification of a signature by a public key. -/
  identityVerify : Bytes32 → List UInt8 → Vector UInt8 64 → Bool
  /-- X25519 public key of a secret. -/
  ephemeralPublic : Bytes32 → Bytes32
  /-- X25519 shared secret of a secret and a public key. -/
  diffieHellman : Bytes32 → Bytes32 → Bytes32

section

variable (c : Primitives)

/-- Fingerprint of a public key (`src/native/link/src/crypto.rs:40–57`). -/
def fingerprint (publicKey : List UInt8) : String := hexEncode (c.sha256 publicKey).toList

/-- Commitment to an ephemeral key and a nonce (`crypto.rs:59–82`). -/
def ephCommitment (ephPub nonce : Bytes32) : Bytes32 :=
  c.sha256 (utf8 "fluxdown-link-commit-v2" ++ ephPub.toList ++ nonce.toList)

/-- Check a commitment (`crypto.rs:84–88`). -/
def verifyEphCommitment (commitment ephPub nonce : Bytes32) : Bool :=
  commitment == ephCommitment c ephPub nonce

/-- Digest of a transcript (`crypto.rs:90–96`). -/
def hashTranscript (transcript : List UInt8) : Bytes32 := c.sha256 transcript

/-- Decimal digits with leading zeros. -/
def padDigits (width n : Nat) : String :=
  let digits := Nat.toDigits 10 n
  String.ofList (List.replicate (width - digits.length) '0' ++ digits)

/-- The short authentication string (`crypto.rs:98–125`). -/
def deriveSas (z transcriptHash : Bytes32) : String :=
  match c.hkdfSha256 (utf8 "fluxdown-link-sas-v2") z.toList transcriptHash.toList 4 with
  | none => "000000"
  | some okm => padDigits 6 ((okm.foldl (fun n byte ↦ n * 256 + byte.toNat) 0) % 1000000)

/-- The secret of a link (`crypto.rs:127–147`). -/
def deriveLinkKey (z transcriptHash : Bytes32) : List UInt8 :=
  (c.hkdfSha256 (utf8 "fluxdown-link-key-salt-v2") z.toList
    (utf8 "fluxdown-link-key-v2" ++ transcriptHash.toList) 32).getD z.toList

/-- The encryption key of a link (`crypto.rs:149–176`). -/
def deriveLinkAeadKey (linkSecret : List UInt8) : List UInt8 :=
  (c.hkdfSha256 (utf8 "fluxdown-link-aead-salt-v1") linkSecret (utf8 "fluxdown-link-aead-v1")
    32).getD (List.replicate 32 0)

/-- What a request of the data plane is bound to (`crypto.rs:178–193`). -/
structure LinkExchange where
  method : String
  path : String
  nonce : String
  senderFp : String
  receiverFp : String
deriving DecidableEq

/-- Associated data of a request (`crypto.rs:195–204`). -/
def requestAad (exchange : LinkExchange) : List UInt8 :=
  utf8 s!"fluxlink-v2-req\n{exchange.method}\n{exchange.path}\n{exchange.senderFp}\n{exchange.receiverFp}\n{exchange.nonce}"

/-- Decrypt a body: a nonce of twelve bytes, the ciphertext and its tag
(`crypto.rs:253–286`). -/
def openLinkBody (key aad sealedBody : List UInt8) : Option (List UInt8) :=
  if sealedBody.length < 12 + 16 then none
  else c.aeadOpen key (sealedBody.take 12) aad (sealedBody.drop 12)

/-- The tag of a request (`crypto.rs:288–333`). -/
def linkAuthTag (secret : List UInt8) (exchange : LinkExchange) (ts : Int) (body : List UInt8) :
    String :=
  let digest := hexEncode (c.sha256 body).toList
  hexEncode (c.hmacSha256 secret (utf8
    s!"fluxlink-v2\n{exchange.method}\n{exchange.path}\n{ts}\n{exchange.nonce}\n{exchange.senderFp}\n{exchange.receiverFp}\n{digest}"))

/-- Check the tag of a request (`crypto.rs:335–347`). -/
def verifyLinkAuthTag (secret : List UInt8) (exchange : LinkExchange) (ts : Int)
    (body : List UInt8) (tagHex : String) : Bool :=
  linkAuthTag c secret exchange ts body == tagHex

end

/-- A fingerprint has 64 hexadecimal digits in lower case (`crypto.rs:355–362`). -/
def isFingerprintShaped (value : String) : Bool :=
  value.utf8ByteSize == 64 &&
    value.toList.all fun c ↦ c.isDigit || decide ('a' ≤ c) && decide (c ≤ 'f')

end Link
