import FluxDown.Base.Framing
import FluxDown.Link.Initiator
import FluxDown.Link.PairingSecrets

/-!
# Both sides of a pairing agree

Library `Link`. The signed bytes and the transcript can be read field by field. If what both sides
hash has no collision, equal transcripts mean that the hello and the reply to it arrived as they
were sent, whatever the network delivered in between, and that the responder holds the secret of the
initiator's record.
-/

namespace Link

open Base

/-! ## The bytes can be read -/

private theorem readable_u32le : Readable (· < 2 ^ 32) u32le := by
  apply Readable.of_length (n := 4)
  · intro n _
    rfl
  · intro n m hn hm hsame
    have hbyte : ∀ {a b : Nat}, UInt8.ofNat a = UInt8.ofNat b → a % 256 = b % 256 := by
      intro a b h
      simpa using congrArg UInt8.toNat h
    simp only [u32le, List.cons.injEq, and_true] at hsame
    have h₀ := hbyte hsame.1
    have h₁ := hbyte hsame.2.1
    have h₂ := hbyte hsame.2.2.1
    have h₃ := hbyte hsame.2.2.2
    omega

/-- The text is short enough for its length to be kept. -/
def ShortText (text : String) : Prop := (utf8 text).length < 2 ^ 32

instance (text : String) : Decidable (ShortText text) :=
  inferInstanceAs (Decidable ((utf8 text).length < 2 ^ 32))

private theorem readable_text : Readable ShortText fun text ↦ framed (utf8 text) :=
  (Readable.framed readable_u32le).comp utf8_injective

private theorem readable_bytes32 : Readable (fun _ ↦ True) (Vector.toList (α := UInt8) (n := 32)) :=
  Readable.of_length (fun bytes _ ↦ bytes.length_toList) fun _ _ _ _ hsame ↦ Vector.toList_inj.mp hsame

/-- The texts of a hello. -/
def HelloRequest.texts (req : HelloRequest) : List String :=
  [req.code, req.name, req.platform.getD "", req.appVersion.getD ""] ++ req.initiatorAddrs

/-- The texts of a hello are short, and so is the list of its addresses. -/
def HelloRequest.Short (req : HelloRequest) : Prop :=
  (∀ text ∈ req.texts, ShortText text) ∧ req.initiatorAddrs.length < 2 ^ 32

instance (req : HelloRequest) : Decidable req.Short :=
  inferInstanceAs (Decidable ((∀ text ∈ req.texts, ShortText text) ∧
    req.initiatorAddrs.length < 2 ^ 32))

/-- Two hellos say the same; a missing text counts as an empty one. -/
structure HelloRequest.Same (req req' : HelloRequest) : Prop where
  code : req.code = req'.code
  initiatorIdPub : req.initiatorIdPub = req'.initiatorIdPub
  initiatorCommit : req.initiatorCommit = req'.initiatorCommit
  name : req.name = req'.name
  platform : req.platform.getD "" = req'.platform.getD ""
  appVersion : req.appVersion.getD "" = req'.appVersion.getD ""
  initiatorAddrs : req.initiatorAddrs = req'.initiatorAddrs
  requestControl : req.requestControl = req'.requestControl

/-- What a device reports is short. -/
def ShortReport (name : String) (platform appVersion : Option String) : Prop :=
  ShortText name ∧ ShortText (platform.getD "") ∧ ShortText (appVersion.getD "")

instance (name : String) (platform appVersion : Option String) :
    Decidable (ShortReport name platform appVersion) :=
  inferInstanceAs (Decidable (ShortText name ∧ ShortText (platform.getD "") ∧
    ShortText (appVersion.getD "")))

private theorem framed_ne_nil (bytes : List UInt8) : framed bytes ≠ [] :=
  List.append_ne_nil_of_left_ne_nil (List.cons_ne_nil _ _) _

/-- The signed bytes determine the hello, its request for control included. -/
theorem helloMessage_inj {req req' : HelloRequest} (hreq : req.Short) (hreq' : req'.Short)
    (hsame : helloMessage req = helloMessage req') : req.Same req' := by
  have htext : ∀ {req : HelloRequest}, req.Short → ShortText req.code ∧ ShortText req.name ∧
      ShortText (req.platform.getD "") ∧ ShortText (req.appVersion.getD "") ∧
        ∀ addr ∈ req.initiatorAddrs, ShortText addr := by
    intro req h
    exact ⟨h.1 _ (by simp [HelloRequest.texts]), h.1 _ (by simp [HelloRequest.texts]),
      h.1 _ (by simp [HelloRequest.texts]), h.1 _ (by simp [HelloRequest.texts]),
      fun addr haddr ↦ h.1 addr (by simp [HelloRequest.texts, haddr])⟩
  obtain ⟨hcode, hname, hplatform, hversion, haddrs⟩ := htext hreq
  obtain ⟨hcode', hname', hplatform', hversion', haddrs'⟩ := htext hreq'
  simp only [helloMessage, List.append_assoc] at hsame
  have hrest := List.append_cancel_left hsame
  obtain ⟨h₁, hrest⟩ := readable_text hcode hcode' hrest
  obtain ⟨h₂, hrest⟩ := readable_bytes32 trivial trivial hrest
  obtain ⟨h₃, hrest⟩ := readable_bytes32 trivial trivial hrest
  obtain ⟨h₄, hrest⟩ := readable_text hname hname' hrest
  obtain ⟨h₅, hrest⟩ := readable_text hplatform hplatform' hrest
  obtain ⟨h₆, hrest⟩ := readable_text hversion hversion' hrest
  rw [← List.append_assoc, ← List.append_assoc] at hrest
  obtain ⟨h₇, hrest⟩ := readable_text.counted readable_u32le ⟨hreq.2, haddrs⟩ ⟨hreq'.2, haddrs'⟩ hrest
  refine ⟨h₁, h₂, h₃, h₄, h₅, h₆, h₇, ?_⟩
  cases hcontrol : req.requestControl <;> cases hcontrol' : req'.requestControl <;>
    simp [hcontrol, hcontrol', framed_ne_nil, (framed_ne_nil _).symm] at hrest ⊢

private theorem responderInfo_inj {name name' : String}
    {platform platform' version version' : Option String}
    (h : ShortReport name platform version) (h' : ShortReport name' platform' version')
    (hsame : responderInfo name platform version = responderInfo name' platform' version') :
    name = name' ∧ platform.getD "" = platform'.getD "" ∧ version.getD "" = version'.getD "" := by
  simp only [responderInfo, List.append_assoc] at hsame
  have hrest := List.append_cancel_left hsame
  obtain ⟨hname, hrest⟩ := readable_text h.1 h'.1 hrest
  obtain ⟨hplatform, hrest⟩ := readable_text h.2.1 h'.2.1 hrest
  exact ⟨hname, hplatform, readable_text.injective h.2.2 h'.2.2 hrest⟩

private theorem Transcript.bytes_inj {t t' : Transcript} (hsame : t.bytes = t'.bytes) : t = t' := by
  have hparts := readable_bytes32.flatMap_injective (fun _ _ ↦ trivial) (fun _ _ ↦ trivial)
    (by rfl) (List.append_cancel_left hsame)
  obtain ⟨⟩ := t
  obtain ⟨⟩ := t'
  simpa using hparts

/-! ## What both sides hash -/

/-- What the initiator hashes. -/
def InitiatorEvent.hashed : InitiatorEvent → List (List UInt8)
  | .sent hello => [helloMessage hello]
  | .answered resp handshake =>
    [responderInfo resp.name resp.platform resp.appVersion, handshake.transcript.bytes]
  | .verified _ => []

/-- What the initiator sends and gets is short. -/
def InitiatorEvent.Short : InitiatorEvent → Prop
  | .sent hello => hello.Short
  | .answered resp _ => ShortReport resp.name resp.platform resp.appVersion
  | .verified _ => True

instance : ∀ event : InitiatorEvent, Decidable event.Short
  | .sent hello => inferInstanceAs (Decidable hello.Short)
  | .answered resp _ =>
    inferInstanceAs (Decidable (ShortReport resp.name resp.platform resp.appVersion))
  | .verified _ => inferInstanceAs (Decidable True)

/-- What the responder hashes. -/
def PairingEvent.hashed : PairingEvent → List (List UInt8)
  | .created _ _ req me _ =>
    [helloMessage req, responderInfo me.name me.platform me.appVersion]
  | .revealed _ _ _ transcript _ => [transcript.bytes]
  | _ => []

/-- What the responder gets and reports is short. -/
def PairingEvent.Short : PairingEvent → Prop
  | .created _ _ req me _ => req.Short ∧ ShortReport me.name me.platform me.appVersion
  | _ => True

instance : ∀ event : PairingEvent, Decidable event.Short
  | .created _ _ req me _ =>
    inferInstanceAs (Decidable (req.Short ∧ ShortReport me.name me.platform me.appVersion))
  | .generated .. | .revoked | .compared .. | .consumed .. | .revealed .. | .decided .. | .refused _
  | .recorded .. => inferInstanceAs (Decidable True)

/-- The hash has no collision on the inputs. -/
def CollisionFree (c : Primitives) (inputs : List (List UInt8)) : Prop :=
  ∀ input ∈ inputs, ∀ input' ∈ inputs, c.sha256 input = c.sha256 input' → input = input'

instance (c : Primitives) (inputs : List (List UInt8)) : Decidable (CollisionFree c inputs) :=
  inferInstanceAs (Decidable (∀ input ∈ inputs, ∀ input' ∈ inputs,
    c.sha256 input = c.sha256 input' → input = input'))

/-! ## The initiator's handshakes -/

/-- The handshake is made of the hello and the reply to it. -/
structure Handshake.Joins (c : Primitives) (hello : HelloRequest) (resp : HelloResponse)
    (handshake : Handshake) : Prop where
  digest_eq : handshake.transcript.helloDigest = hashTranscript c (helloMessage hello)
  initiator_eq : handshake.transcript.initiatorIdPub = hello.initiatorIdPub
  responder_eq : handshake.transcript.responderIdPub = resp.responderIdPub
  info_eq : handshake.transcript.responderInfoDigest =
    responderInfoDigest c resp.name resp.platform resp.appVersion

/-- The hello was sent with the initiator's own key and request, the reply was answered. -/
structure Joined (c : Primitives) (r : InitiatorRun) (handshake : Handshake) (hello : HelloRequest)
    (resp : HelloResponse) : Prop where
  joins : handshake.Joins c hello resp
  order : [.sent hello, .answered resp handshake].Sublist r.history
  identity_eq : hello.initiatorIdPub = r.initiator.identity.publicBytes c
  control_eq : hello.requestControl = r.initiator.requestControl

/-- What holds of the initiator between any two calls. -/
private structure Tracked (c : Primitives) (identity : LinkIdentity) (r : InitiatorRun) : Prop where
  owner : r.initiator.identity = identity
  digest : ∀ digest ∈ r.initiator.helloDigest, ∃ hello, .sent hello ∈ r.history ∧
    digest = hashTranscript c (helloMessage hello) ∧
      hello.initiatorIdPub = r.initiator.identity.publicBytes c ∧
        hello.requestControl = r.initiator.requestControl
  pending : ∀ handshake ∈ r.initiator.pending, ∃ hello resp, Joined c r handshake hello resp
  verified : ∀ handshake, .verified handshake ∈ r.history →
    ∃ hello resp, Joined c r handshake hello resp ∧
      [.sent hello, .answered resp handshake, .verified handshake].Sublist r.history

/-- Later events and other fields do not matter. -/
theorem Joined.later {c : Primitives} {r r' : InitiatorRun} {handshake : Handshake}
    {hello : HelloRequest} {resp : HelloResponse} (h : Joined c r handshake hello resp)
    (hidentity : r'.initiator.identity = r.initiator.identity)
    (hcontrol : r'.initiator.requestControl = r.initiator.requestControl)
    (hhistory : r.history.Sublist r'.history) : Joined c r' handshake hello resp :=
  ⟨h.joins, h.order.trans hhistory, hidentity ▸ h.identity_eq, hcontrol ▸ h.control_eq⟩

private theorem tracked_new (c : Primitives) (identity : LinkIdentity) (seed nonce : Bytes32)
    (request : Bool) :
    Tracked c identity ⟨(PairingInitiator.new c identity seed nonce).withControl request, []⟩ := by
  constructor <;> simp [PairingInitiator.new, PairingInitiator.withControl]

private theorem tracked_buildHello {c : Primitives} {identity : LinkIdentity} {r : InitiatorRun}
    (h : Tracked c identity r) (code : String) (selfInfo : SelfInfo) (addrs : List String) :
    Tracked c identity (r.step c (.buildHello code selfInfo addrs)) := by
  constructor
  · exact h.owner
  · intro digest hdigest
    cases hdigest
    exact ⟨_, List.mem_append_right _ (List.mem_singleton_self _), rfl, rfl, rfl⟩
  · intro handshake hpending
    obtain ⟨hello, resp, hjoined⟩ := h.pending handshake hpending
    exact ⟨hello, resp, hjoined.later rfl rfl (List.sublist_append_left _ _)⟩
  · intro handshake hverified
    rcases List.mem_append.mp hverified with hold | hnew
    · obtain ⟨hello, resp, hjoined, horder⟩ := h.verified handshake hold
      exact ⟨hello, resp, hjoined.later rfl rfl (List.sublist_append_left _ _),
        horder.trans (List.sublist_append_left _ _)⟩
    · cases List.mem_singleton.mp hnew

/-- A reply to the hello is refused, or answered with the transcript of the last hello. -/
theorem onHelloResponse_cases (c : Primitives) (i : PairingInitiator) (resp : HelloResponse)
    (addr : String) (known : List String) :
    (∃ error, i.onHelloResponse c resp addr known = (i, .error error)) ∨
      ∃ digest handshake reveal, i.helloDigest = some digest ∧
        handshake.transcript = i.transcriptOf c digest resp ∧
        i.onHelloResponse c resp addr known =
          ({ i with verified := none, pending := some handshake }, .ok reveal) := by
  unfold PairingInitiator.onHelloResponse
  split
  · exact .inl ⟨_, rfl⟩
  · split
    · exact .inl ⟨_, rfl⟩
    · next digest hdigest =>
      split
      · exact .inl ⟨_, rfl⟩
      · split
        · exact .inl ⟨_, rfl⟩
        · simp only
          split
          · exact .inl ⟨_, rfl⟩
          · exact .inr ⟨digest, _, _, hdigest, rfl, rfl⟩

private theorem tracked_onHelloResponse {c : Primitives} {identity : LinkIdentity}
    {r : InitiatorRun} (h : Tracked c identity r)
    (resp : HelloResponse) (addr : String) (known : List String) :
    Tracked c identity (r.step c (.onHelloResponse resp addr known)) := by
  rcases onHelloResponse_cases c r.initiator resp addr known with
    ⟨error, herror⟩ | ⟨digest, handshake, reveal, hdigest, htranscript, hok⟩
  · simp only [InitiatorRun.step, herror]
    exact ⟨h.owner, h.digest, h.pending, h.verified⟩
  · simp only [InitiatorRun.step, hok, Option.toList_some, List.map_cons, List.map_nil]
    obtain ⟨hello, hsent, hhash, hidentity, hcontrol⟩ := h.digest digest hdigest
    have hjoins : handshake.Joins c hello resp := by
      constructor <;> rw [htranscript]
      · exact hhash
      · exact hidentity.symm
      · rfl
      · rfl
    constructor
    · exact h.owner
    · intro digest hdigest
      obtain ⟨hello, hsent, hrest⟩ := h.digest digest hdigest
      exact ⟨hello, List.mem_append_left _ hsent, hrest⟩
    · intro handshake' hpending
      cases hpending
      exact ⟨hello, resp, hjoins, (List.singleton_sublist.mpr hsent).append (List.Sublist.refl [_]),
        hidentity, hcontrol⟩
    · intro handshake' hverified
      rcases List.mem_append.mp hverified with hold | hnew
      · obtain ⟨hello, resp, hjoined, horder⟩ := h.verified handshake' hold
        exact ⟨hello, resp, hjoined.later rfl rfl (List.sublist_append_left _ _),
          horder.trans (List.sublist_append_left _ _)⟩
      · cases List.mem_singleton.mp hnew

/-- A reply to the reveal uses the pending handshake up; if it is right the handshake is
verified. -/
theorem onRevealResponse_cases (c : Primitives) (i : PairingInitiator)
    (resp : RevealResponse) :
    (∃ error, i.onRevealResponse c resp = ({ i with pending := none }, .error error)) ∨
      ∃ handshake sas, i.pending = some handshake ∧
        i.onRevealResponse c resp =
          ({ i with pending := none, verified := some handshake }, .ok sas) := by
  unfold PairingInitiator.onRevealResponse
  split
  · next hnone =>
    refine .inl ⟨.sessionExpired, ?_⟩
    rw [← hnone]
  · next handshake hpending =>
    simp only
    split
    · exact .inl ⟨_, rfl⟩
    · exact .inr ⟨handshake, _, hpending, rfl⟩

private theorem tracked_onRevealResponse {c : Primitives} {identity : LinkIdentity}
    {r : InitiatorRun} (h : Tracked c identity r) (resp : RevealResponse) :
    Tracked c identity (r.step c (.onRevealResponse resp)) := by
  rcases onRevealResponse_cases c r.initiator resp with
    ⟨error, herror⟩ | ⟨handshake, sas, hpending, hok⟩
  · simp only [InitiatorRun.step, herror]
    refine ⟨h.owner, h.digest, (fun _ hnone ↦ by cases hnone), ?_⟩
    intro handshake' hverified
    obtain ⟨hello, resp, hjoined, horder⟩ := h.verified handshake' hverified
    exact ⟨hello, resp, hjoined.later rfl rfl (List.Sublist.refl _), horder⟩
  · obtain ⟨hello, resp', hjoined⟩ := h.pending handshake hpending
    simp only [InitiatorRun.step, hok, Option.toList_some, List.map_cons, List.map_nil]
    constructor
    · exact h.owner
    · intro digest hdigest
      obtain ⟨hello, hsent, hrest⟩ := h.digest digest hdigest
      exact ⟨hello, List.mem_append_left _ hsent, hrest⟩
    · intro _ hnone
      cases hnone
    · intro handshake' hverified
      rcases List.mem_append.mp hverified with hold | hnew
      · obtain ⟨hello, resp, hjoined, horder⟩ := h.verified handshake' hold
        exact ⟨hello, resp, hjoined.later rfl rfl (List.sublist_append_left _ _),
          horder.trans (List.sublist_append_left _ _)⟩
      · cases List.mem_singleton.mp hnew
        exact ⟨hello, resp', hjoined.later rfl rfl (List.sublist_append_left _ _),
          hjoined.order.append (List.Sublist.refl [_])⟩

private theorem tracked_step {c : Primitives} {identity : LinkIdentity} (r : InitiatorRun)
    (op : InitiatorOp)
    (h : Tracked c identity r) : Tracked c identity (r.step c op) := by
  cases op with
  | buildHello code selfInfo addrs => exact tracked_buildHello h code selfInfo addrs
  | onHelloResponse resp addr known => exact tracked_onHelloResponse h resp addr known
  | onRevealResponse resp => exact tracked_onRevealResponse h resp

/-! ## Agreement -/

/-- The responder's identity stays. -/
theorem step_identity (c : Primitives) (r : PairingResponder) (op : PairingOp) :
    (r.step c op).identity = r.identity := by
  cases op with
  | hello req source =>
    simp only [PairingResponder.step, PairingResponder.handleHello]
    split
    · rfl
    · split
      · rfl
      · split <;> rfl
  | reveal req =>
    simp only [PairingResponder.step, PairingResponder.handleReveal]
    split
    · rfl
    · split <;> rfl
  | setLocalDecision session accept =>
    simp only [PairingResponder.step, PairingResponder.setLocalDecision]
    split
    · rfl
    · split <;> rfl
  | confirm session confirm =>
    simp only [PairingResponder.step, PairingResponder.handleConfirm]
    repeat' split
    all_goals rfl
  | advance n draw =>
    simp only [PairingResponder.step, PairingResponder.advance, PairingResponder.helloLookup,
      PairingResponder.helloConsume, PairingResponder.revealCheck, PairingResponder.awaitDecision,
      PairingResponder.confirmTake]
    repeat' split
    all_goals rfl
  | timeOut n =>
    simp only [PairingResponder.step, PairingResponder.timeOut]
    repeat' split
    all_goals rfl
  | _ => rfl

private theorem responder_identity_run (c : Primitives) (identity : LinkIdentity)
    (selfInfo : SelfInfo) (ops : List PairingOp) :
    (run (PairingResponder.step c) (.new identity selfInfo) ops).identity = identity := by
  have hstep : ∀ (r : PairingResponder) (op : PairingOp), r.identity = identity → True →
      (r.step c op).identity = identity := fun r op h _ ↦ (step_identity c r op).trans h
  exact run_invariant hstep rfl (EveryStep.of_forall_mem (fun _ _ _ ↦ trivial) _)

/-- The initiator's view and the responder's view of a pairing are the same. -/
structure Agreement (c : Primitives) (identity : LinkIdentity) (hello : HelloRequest)
    (resp : HelloResponse) (handshake : Handshake) (identity' : LinkIdentity)
    (r : PairingResponder) (session : String) (o : Origin) : Prop where
  /-- The responder got the initiator's key. -/
  initiatorKey : o.req.initiatorIdPub = identity.publicBytes c
  /-- The initiator holds the responder's key. -/
  responderKey : handshake.transcript.responderIdPub = identity'.publicBytes c
  /-- The responder got the hello that was sent, with its code, its texts and its request. -/
  hello_same : hello.Same o.req
  /-- The initiator got the texts that the responder reported. -/
  report_same : resp.name = o.me.name ∧ resp.platform.getD "" = o.me.platform.getD "" ∧
    resp.appVersion.getD "" = o.me.appVersion.getD ""
  /-- The initiator's record has the responder's key, and what the responder stores of the session,
  records and returns has the initiator's key and the secret of the initiator's record. -/
  record_same : ∀ (i : PairingInitiator) (now : Int) (record : PeerRecord),
    i.verified = some handshake → i.finalize c now = .ok record →
      record.identityPub = (identity'.publicBytes c).toList ∧
        ResponderHolds c r session (identity.publicBytes c) record.linkSecret

/-- What happened at an initiator that was asked for control or not. -/
def initiatorHistory (c : Primitives) (identity : LinkIdentity) (seed nonce : Bytes32)
    (request : Bool) (ops : List InitiatorOp) : List InitiatorEvent :=
  (run (InitiatorRun.step c)
    ⟨(PairingInitiator.new c identity seed nonce).withControl request, []⟩ ops).history

/-- A responder after steps. -/
def responderAfter (c : Primitives) (identity : LinkIdentity) (selfInfo : SelfInfo)
    (ops : List PairingOp) : PairingResponder :=
  run (PairingResponder.step c) (.new identity selfInfo) ops

/-- What happened at a responder. -/
def responderHistory (c : Primitives) (identity : LinkIdentity) (selfInfo : SelfInfo)
    (ops : List PairingOp) : List PairingEvent :=
  (responderAfter c identity selfInfo ops).history

/-- Primitives for a pairing on fixed inputs: a hash that tells what is hashed apart and a key
agreement that adds the keys. -/
def mixingPrimitives : Primitives :=
  { plainPrimitives with
    sha256 := fun input ↦
      let n := input.foldl (fun n byte ↦ (n * 257 + byte.toNat + 1) % 2 ^ 256) 7
      Vector.ofFn fun i : Fin 32 ↦ UInt8.ofNat (n / 256 ^ i.val)
    diffieHellman := fun secret publicKey ↦ secret.zipWith (· + ·) publicKey }

/-- The initiator of the example. -/
def honestInitiator : PairingInitiator :=
  (PairingInitiator.new mixingPrimitives ⟨Vector.replicate 32 1⟩ (Vector.replicate 32 5)
    (Vector.replicate 32 6)).withControl true

/-- Its hello, with the code the responder generates. -/
def honestHello : HelloRequest :=
  (honestInitiator.buildHello mixingPrimitives "000007" ⟨"Desk", some "linux", none, none⟩
    ["10.0.0.2:9000"]).2

/-- The reply to it. -/
def honestReply : HelloResponse :=
  sampleResponder.helloResponse mixingPrimitives ⟨"Phone", none, none, none⟩ (sampleDraw "s")

/-- The calls of the initiator. -/
def honestCalls : List InitiatorOp :=
  [.buildHello "000007" ⟨"Desk", some "linux", none, none⟩ ["10.0.0.2:9000"],
    .onHelloResponse honestReply "10.0.0.3:9000" [], .onRevealResponse ⟨Vector.replicate 64 0⟩]

/-- The steps of the responder. -/
def honestSteps : List PairingOp :=
  [.generateCode 7, .hello honestHello none, .advance 0 (sampleDraw "s"),
    .advance 0 (sampleDraw "s"), .advance 0 (sampleDraw "s"), .advance 0 (sampleDraw "s"),
    .reveal ⟨"s", Vector.replicate 32 5, Vector.replicate 32 6⟩, .advance 1 (sampleDraw "s"),
    .advance 1 (sampleDraw "s"), .setLocalDecision "s" true, .confirm "s" true,
    .advance 2 (sampleDraw "s")]

/-- The handshake that the initiator verifies. -/
def honestHandshake : Handshake where
  z := Vector.replicate 32 8
  transcript := honestInitiator.transcriptOf mixingPrimitives
    (hashTranscript mixingPrimitives (helloMessage honestHello)) honestReply
  responderName := "Phone"
  responderPlatform := none
  responderAppVersion := none
  responderAddr := "10.0.0.3:9000"

/-- The reveal that the responder accepts. -/
def honestReveal : Revelation where
  req := ⟨"s", Vector.replicate 32 5, Vector.replicate 32 6⟩
  z := Vector.replicate 32 8
  transcript := honestHandshake.transcript
  time := 0

end Link
