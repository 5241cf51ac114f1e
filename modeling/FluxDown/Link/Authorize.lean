import FluxDown.Base.Run
import FluxDown.Link.Crypto
import FluxDown.Link.Types

/-!
# Requests of the data plane

Library `Link`. A request names its sender, a time and a nonce. It is accepted within a window
around its time, once for each nonce: accepted nonces are kept until a second computed when
they are stored. A call reads the clock when it arrives and takes the table of nonces after it
looked the sender up, so other calls may come between.
-/

namespace Link

open Base

/-- Seconds by which clocks may differ (`src/native/link/src/crypto.rs:28–29`). -/
def linkAuthSkewSecs : Int := 120

/-- Scheme of the data plane (`crypto.rs:41–43`). -/
def linkEncV2 : String := "v2"

/-- The longest nonce (`src/native/link/src/manager.rs:189–190`). -/
def maxNonceLen : Nat := 64

/-- A nonce has letters, digits, hyphens and underscores (`manager.rs:1803–1810`). -/
def isNonceShaped (value : String) : Bool :=
  !value.isEmpty && decide (value.utf8ByteSize ≤ maxNonceLen) &&
    value.toList.all fun c ↦ c.isAlphanum || c == '-' || c == '_'

/-- A tag has 64 hexadecimal digits (`manager.rs:1812–1815`). -/
def isTagShaped (value : String) : Bool :=
  value.utf8ByteSize == 64 && value.toList.all fun c ↦
    c.isDigit || decide ('a' ≤ c) && decide (c ≤ 'f') || decide ('A' ≤ c) && decide (c ≤ 'F')

/-- Addition that stays at the largest value of 64 bits. -/
def saturatingAdd (a b : Int) : Int := min (a + b) (2 ^ 63 - 1)

/-- The arguments of a call (`manager.rs:1603–1615`). -/
structure AuthRequest where
  method : String
  path : String
  deviceFp : String
  ts : Int
  nonce : String
  body : List UInt8
  tag : String
  enc : String

/-- An accepted request with its body decrypted (`manager.rs:1766–1776`). -/
structure LinkRequest where
  device : String
  body : List UInt8
  receiver : String
  method : String
  path : String
  nonce : String
  aeadKey : List UInt8

namespace AuthRequest

/-- Check scheme, shapes and time (`manager.rs:1614–1628`). -/
def checkArrival (startedAt now : Int) (request : AuthRequest) : Except LinkError Unit :=
  if request.enc ≠ linkEncV2 then .error .unauthorized
  else if !isFingerprintShaped request.deviceFp || !isNonceShaped request.nonce ||
      !isTagShaped request.tag then .error .unauthorized
  else if linkAuthSkewSecs < (now - request.ts).natAbs then .error .clockSkew
  else if request.ts < startedAt then .error .clockSkew
  else .ok ()

/-- What the request is bound to (`manager.rs:1635–1642`). -/
def exchange (me : String) (request : AuthRequest) : LinkExchange :=
  ⟨request.method, request.path, request.nonce, request.deviceFp, me⟩

/-- The sender's record, if it is paired and its tag is right (`manager.rs:1629–1647`). -/
def authenticate (c : Primitives) (me : String) (answer : Except LinkError (Option PeerRecord))
    (request : AuthRequest) : Except LinkError PeerRecord :=
  match answer with
  | .error e => .error e
  | .ok found => match found.filter fun record ↦ !record.revoked with
    | none => .error .notPaired
    | some record =>
      if verifyLinkAuthTag c record.linkSecret (request.exchange me) request.ts request.body
          request.tag then .ok record
      else .error .unauthorized

/-- The entry of the table (`manager.rs:1656`). -/
def key (request : AuthRequest) : String := s!"{request.deviceFp}:{request.nonce}"

/-- When the entry is dropped (`manager.rs:1660`). -/
def expires (request : AuthRequest) (now : Int) : Int :=
  saturatingAdd (max request.ts now) linkAuthSkewSecs

/-- Decrypt the body (`manager.rs:1662–1675`). -/
def accept (c : Primitives) (me : String) (record : PeerRecord) (request : AuthRequest) :
    Except LinkError LinkRequest :=
  let aeadKey := deriveLinkAeadKey c record.linkSecret
  match openLinkBody c aeadKey (requestAad (request.exchange me)) request.body with
  | none => .error .unauthorized
  | some plaintext =>
    .ok ⟨request.deviceFp, plaintext, me, request.method, request.path, request.nonce, aeadKey⟩

end AuthRequest

/-- Nonces that were seen and when they are dropped (`manager.rs:260–268`). -/
abbrev SeenNonces := String → Option Int

/-- Drop nonces (`manager.rs:1655`, `1729–1732`). -/
def retainNonces (now : Int) (seen : SeenNonces) : SeenNonces :=
  fun key ↦ (seen key).filter (now < ·)

/-- Drop nonces and take the request's (`manager.rs:1648–1661`). -/
def takeNonce (now : Int) (request : AuthRequest) (seen : SeenNonces) :
    SeenNonces × Except LinkError Unit :=
  let seen := retainNonces now seen
  if (seen request.key).isSome then (seen, .error .unauthorized)
  else (Function.update seen request.key (some (request.expires now)), .ok ())

/-- A request that was accepted and the clock its call read. -/
structure Accepted where
  request : AuthRequest
  now : Int

/-- The data plane of a process. -/
structure DataPlane where
  /-- Fingerprint of this device. -/
  me : String
  /-- The clock when the process started. -/
  startedAt : Int
  /-- The clock. -/
  clock : Int
  seenNonces : SeenNonces
  /-- Calls that passed the first checks, with the clock they read. -/
  waiting : Nat → Option (AuthRequest × Int)
  /-- Requests accepted so far. -/
  accepted : List Accepted
  /-- The latest clock by which nonces were dropped. -/
  dropped : Int

/-- What happens at the data plane. -/
inductive DataPlaneOp where
  /-- Time passes. -/
  | tick (seconds : Nat)
  /-- A call arrives and reads the clock. -/
  | arrive (call : Nat) (request : AuthRequest)
  /-- A call has looked its sender up and goes on to the end. -/
  | settle (call : Nat) (answer : Except LinkError (Option PeerRecord))
  /-- Expired state is dropped. -/
  | pruneExpired

namespace DataPlane

/-- A process that starts. -/
def start (me : String) (clock : Int) : DataPlane :=
  ⟨me, clock, clock, fun _ ↦ none, fun _ ↦ none, [], clock⟩

/-- A call from its lookup on (`manager.rs:1629–1676`). -/
def settleCall (c : Primitives) (plane : DataPlane) (request : AuthRequest) (now : Int)
    (answer : Except LinkError (Option PeerRecord)) : DataPlane :=
  match request.authenticate c plane.me answer with
  | .error _ => plane
  | .ok record =>
    let taken := takeNonce now request plane.seenNonces
    let plane := { plane with seenNonces := taken.1, dropped := max plane.dropped now }
    match taken.2, request.accept c plane.me record with
    | .ok _, .ok _ => { plane with accepted := plane.accepted ++ [⟨request, now⟩] }
    | _, _ => plane

/-- One step of the data plane. -/
def step (c : Primitives) (plane : DataPlane) : DataPlaneOp → DataPlane
  | .tick seconds => { plane with clock := plane.clock + seconds }
  | .arrive call request => match request.checkArrival plane.startedAt plane.clock with
    | .error _ => plane
    | .ok _ =>
      { plane with waiting := Function.update plane.waiting call (some (request, plane.clock)) }
  | .settle call answer => match plane.waiting call with
    | none => plane
    | some (request, now) =>
      settleCall c { plane with waiting := Function.update plane.waiting call none } request now
        answer
  | .pruneExpired =>
    { plane with
      seenNonces := retainNonces plane.clock plane.seenNonces
      dropped := max plane.dropped plane.clock }

end DataPlane

/-! ## Replays -/

/-- When the entry of an accepted request is dropped. -/
def Accepted.expires (accepted : Accepted) : Int := accepted.request.expires accepted.now

/-- The requests have the same sender, nonce and time. -/
def AuthRequest.Repeats (earlier later : AuthRequest) : Prop :=
  earlier.deviceFp = later.deviceFp ∧ earlier.nonce = later.nonce ∧ earlier.ts = later.ts

instance (earlier later : AuthRequest) : Decidable (earlier.Repeats later) :=
  inferInstanceAs (Decidable (_ ∧ _))

/-- Where a request that repeats an accepted one gets to the table of nonces, no clock by which
nonces were dropped has reached the second at which the accepted one's entry expires. -/
def NonceKept (c : Primitives) (plane : DataPlane) : DataPlaneOp → Prop
  | .settle call answer => ∀ waiting ∈ plane.waiting call,
    (waiting.1.authenticate c plane.me answer).isOk → ∀ accepted ∈ plane.accepted,
      accepted.request.Repeats waiting.1 → max plane.dropped waiting.2 < accepted.expires
  | _ => True

instance (c : Primitives) (plane : DataPlane) (op : DataPlaneOp) :
    Decidable (NonceKept c plane op) :=
  match op with
  | .settle call answer => inferInstanceAs (Decidable (∀ waiting ∈ plane.waiting call,
    (waiting.1.authenticate c plane.me answer).isOk → ∀ accepted ∈ plane.accepted,
      accepted.request.Repeats waiting.1 → max plane.dropped waiting.2 < accepted.expires))
  | .tick _ | .arrive _ _ | .pruneExpired => inferInstanceAs (Decidable True)

namespace DataPlane

/-- Entries of accepted requests are in the table until their second is reached. -/
private structure Remembers (plane : DataPlane) : Prop where
  stored : ∀ accepted ∈ plane.accepted, plane.dropped < accepted.expires →
    plane.seenNonces accepted.request.key = some accepted.expires
  once : plane.accepted.Pairwise fun earlier later ↦ ¬ earlier.request.Repeats later.request

private theorem key_of_repeats {earlier later : AuthRequest} (h : earlier.Repeats later) :
    earlier.key = later.key := by
  rw [AuthRequest.key, AuthRequest.key, h.1, h.2.1]

/-- Dropping nonces keeps the entries whose second is not reached. -/
theorem stored_retain {plane : DataPlane} (h : plane.Remembers) {now : Int}
    {accepted : Accepted} (hmem : accepted ∈ plane.accepted)
    (hlive : max plane.dropped now < accepted.expires) :
    retainNonces now plane.seenNonces accepted.request.key = some accepted.expires := by
  rw [retainNonces, h.stored accepted hmem (lt_of_le_of_lt (le_max_left _ _) hlive)]
  simp [lt_of_le_of_lt (le_max_right plane.dropped now) hlive]

private theorem remembers_retain {plane : DataPlane} (h : plane.Remembers) (now : Int) :
    Remembers { plane with
      seenNonces := retainNonces now plane.seenNonces
      dropped := max plane.dropped now } where
  stored _ hmem hlive := stored_retain h hmem hlive
  once := h.once

/-- A nonce that was free is stored beside the others. -/
theorem stored_update {plane : DataPlane} (h : plane.Remembers) {now expires : Int}
    {key : String} (hfree : retainNonces now plane.seenNonces key = none) {accepted : Accepted}
    (hmem : accepted ∈ plane.accepted) (hlive : max plane.dropped now < accepted.expires) :
    Function.update (retainNonces now plane.seenNonces) key (some expires) accepted.request.key =
      some accepted.expires := by
  have hkept := stored_retain h hmem hlive
  have hne : accepted.request.key ≠ key := by
    intro heq
    rw [heq, hfree] at hkept
    cases hkept
  rw [Function.update_of_ne hne, hkept]

/-- A call that gets to the table keeps what it says of the accepted requests. -/
theorem remembers_settle {c : Primitives} {plane : DataPlane} (h : plane.Remembers)
    {request : AuthRequest} {now : Int} {answer : Except LinkError (Option PeerRecord)}
    (hkept : (request.authenticate c plane.me answer).isOk → ∀ accepted ∈ plane.accepted,
      accepted.request.Repeats request → max plane.dropped now < accepted.expires) :
    (settleCall c plane request now answer).Remembers := by
  unfold settleCall
  split
  · exact h
  · next record hrecord =>
    rw [hrecord] at hkept
    have hkept := hkept rfl
    unfold takeNonce
    by_cases hseen : (retainNonces now plane.seenNonces request.key).isSome
    · simp only [hseen, if_true]
      exact remembers_retain h now
    · have hfree : retainNonces now plane.seenNonces request.key = none := by
        simpa using hseen
      simp only [hseen, Bool.false_eq_true, if_false]
      split
      · constructor
        · intro accepted hmem hlive
          cases List.mem_append.mp hmem with
          | inl hold => exact stored_update h hfree hold hlive
          | inr hnew =>
            rw [List.mem_singleton] at hnew
            subst hnew
            exact Function.update_self ..
        · change (plane.accepted ++ [_]).Pairwise _
          rw [List.pairwise_append]
          refine ⟨h.once, List.pairwise_singleton _ _, ?_⟩
          intro earlier hearlier later hlater hrepeats
          rw [List.mem_singleton] at hlater
          subst hlater
          have hstored := stored_retain h hearlier (hkept earlier hearlier hrepeats)
          rw [key_of_repeats hrepeats, hfree] at hstored
          cases hstored
      · exact ⟨fun accepted hmem hlive ↦ stored_update h hfree hmem hlive, h.once⟩

private theorem remembers_step {c : Primitives} {plane : DataPlane} {op : DataPlaneOp}
    (h : plane.Remembers) (hkept : NonceKept c plane op) : (plane.step c op).Remembers := by
  cases op with
  | tick seconds => exact ⟨h.stored, h.once⟩
  | arrive call request =>
    simp only [step]
    split
    · exact h
    · exact ⟨h.stored, h.once⟩
  | settle call answer =>
    simp only [step]
    split
    · exact h
    · next request now hwaiting =>
      apply remembers_settle
      · exact ⟨h.stored, h.once⟩
      · exact hkept (request, now) hwaiting
  | pruneExpired => exact remembers_retain h plane.clock

end DataPlane

/-- No request is accepted twice in a run in which no repeated request gets to the table of
nonces when the entry of the accepted one has reached its second. -/
theorem authorize_once (c : Primitives) (me : String) (clock : Int) (ops : List DataPlaneOp)
    (h : EveryStep (DataPlane.step c) (NonceKept c) (DataPlane.start me clock) ops) :
    (run (DataPlane.step c) (DataPlane.start me clock) ops).accepted.Pairwise
      fun earlier later ↦ ¬ earlier.request.Repeats later.request := by
  have hstart : (DataPlane.start me clock).Remembers :=
    ⟨fun _ hmem ↦ absurd hmem List.not_mem_nil, List.Pairwise.nil⟩
  exact (run_invariant (fun _ _ ↦ DataPlane.remembers_step) hstart h).once

/-- Primitives for runs on fixed inputs: nothing is hashed, encryption is the plaintext between a
nonce and a tag. -/
def plainPrimitives : Primitives where
  sha256 _ := Vector.replicate 32 0
  hmacSha256 _ _ := List.replicate 32 0
  hkdfSha256 _ _ _ length := some (List.replicate length 0)
  aeadOpen _ _ _ ciphertext := some (ciphertext.take (ciphertext.length - 16))
  identityPublic seed := seed
  identitySign _ _ := Vector.replicate 64 0
  identityVerify _ _ _ := true
  ephemeralPublic secret := secret
  diffieHellman secret _ := secret

/-- A request of a device at a time. -/
def requestAt (ts : Int) : AuthRequest :=
  ⟨"POST", "/api/v1/link/tasks", String.ofList (List.replicate 64 'a'), ts, "n1",
    List.replicate 28 0, String.ofList (List.replicate 64 '0'), "v2"⟩

/-- The record of the device. -/
def pairedRecord : PeerRecord := { fingerprint := String.ofList (List.replicate 64 'a') }

/-- The request is accepted; its repetition comes later, after nonces were dropped. -/
def repeatedAfter (seconds : Nat) : List DataPlaneOp :=
  [.arrive 0 (requestAt 1000), .settle 0 (.ok (some pairedRecord)), .tick seconds, .pruneExpired,
    .arrive 1 (requestAt 1000), .settle 1 (.ok (some pairedRecord))]

/-- Inside the window a repeated request is refused. -/
theorem authorize_once_within_window :
    let plane := run (DataPlane.step plainPrimitives) (DataPlane.start "me" 1000) (repeatedAfter 119)
    plane.accepted.Pairwise fun earlier later ↦ ¬ earlier.request.Repeats later.request := by
  apply authorize_once
  decide +kernel

/-- At the last second of the window the entry is gone and the request is accepted again. -/
theorem authorize_twice :
    let plane := run (DataPlane.step plainPrimitives) (DataPlane.start "me" 1000) (repeatedAfter 120)
    ¬ plane.accepted.Pairwise fun earlier later ↦ ¬ earlier.request.Repeats later.request := by
  decide +kernel

end Link
