import FluxDown.Share.SwarmCapacity

/-!
# Serving is authorised and bounded

Library `Share`. What holds in every run of a device that serves: answers with data are authorised
and of the registered content, chunks of incomplete contents are verified, reserved slots stay
free for tickets with priority and a day has at most the cap and a chunk.
-/

namespace Share

open Base

variable {p : Primitives}

namespace SwarmServer

/-- A server with a reservation and a cap. -/
def started (n cap : Nat) (offset : Int) (clock : Nat) (keys : KeyRing p)
    (content : ContentRegistry) (sets : List ChunkSet) : SwarmServer p :=
  ((SwarmServer.new clock keys content sets).setPriorityReserved n).setDailyCap cap offset

/-- Before each answer with data, a ticket for the peer of the connection and the root was
accepted, and the call was checked before the ticket expired. -/
def Authorised (s : SwarmServer p) : Prop :=
  ∀ before conn call root entry answer now after,
    s.history = before ++ .answered conn call root entry answer now :: after →
      ∃ (ctx : ConnCtx p) (ring : KeyRing p) (ticket : Ticket) (acceptedAt : Nat)
        (payload : TicketPayload) (checkedAt : Nat),
        s.conns[conn]? = some ctx ∧ .accepted conn ring ticket acceptedAt payload ∈ before ∧
          verifyTicket ring ticket ⟨acceptedAt, none, ctx.peer, [scopeSwarm]⟩ = .ok payload ∧
          payload.root.bind parseHash = some root ∧
          .timely conn call root payload.exp checkedAt ∈ before ∧ checkedAt < payload.exp

/-- A call that ended with a reply that announces data was answered. -/
def AnswersNoted (s : SwarmServer p) : Prop :=
  ∀ (n : Nat) (call : Call) reply, s.calls[n]? = some call → call.phase = .replied reply →
    reply.len ≠ 0 → Answered s.history call.conn n

/-- Tickets without priority are granted on slots that are not reserved. -/
def GrantsBySlot (s : SwarmServer p) : Prop :=
  ∀ conn root payload, .granted conn root payload ∈ s.history → payload.pri = 0 →
    ∃ ctx, s.conns[conn]? = some ctx ∧ ctx.reservedSlot = false

variable {s : SwarmServer p}

private theorem authorised_of_lawful (h : s.Lawful) : s.Authorised := by
  intro before conn call root entry answer now after hsplit
  obtain ⟨exp, checkedAt, htimely, hlt, haccepted⟩ :=
    h.answered before conn call root entry answer now after hsplit
  obtain ⟨ring, ticket, acceptedAt, payload, hmem, hroot, rfl⟩ := haccepted
  have hhistory : .accepted conn ring ticket acceptedAt payload ∈ s.history := by
    rw [hsplit]
    exact List.mem_append_left _ hmem
  obtain ⟨ctx, hctx, hverify⟩ := h.events _ hhistory
  exact ⟨ctx, ring, ticket, acceptedAt, payload, checkedAt, hctx, hmem, hverify, hroot, htimely, hlt⟩

private theorem answersNoted_of_lawful (h : s.Lawful) : s.AnswersNoted := by
  intro n call reply hcall hphase hlen
  have hbacks := h.calls n call hcall
  rw [hphase] at hbacks
  exact hbacks.resolve_left hlen

private theorem lawful_started (n cap : Nat) (offset : Int) (clock : Nat) (keys : KeyRing p)
    (content : ContentRegistry) (sets : List ChunkSet) :
    (started n cap offset clock keys content sets).Lawful :=
  lawful_step _ (.setDailyCap cap offset)
    (lawful_step _ (.setPriorityReserved n) (lawful_new clock keys content sets))

private theorem rationed_started (n : Nat) {cap : Nat} (offset : Int) (clock : Nat)
    (keys : KeyRing p) (content : ContentRegistry) (sets : List ChunkSet) (hcap : 0 < cap) :
    (started n cap offset clock keys content sets).Rationed cap offset := by
  refine ⟨DailyBudget.offsetSecs_roll _ _, ?_, ?_, Nat.zero_le _, fun _ _ ↦ rfl,
    fun _ ↦ Nat.zero_le _⟩
  · change 0 < (DailyBudget.roll _ clock).cap
    rw [DailyBudget.cap_roll]
    exact hcap
  · exact Nat.le_of_eq (DailyBudget.cap_roll _ clock)

/-- In every run, answers with data are authorised and sent of the content that was registered for
the root: pieces of the file of a complete content, and chunks of an incomplete one that its set
holds and whose bytes just read verify. Tickets without priority are granted on slots that
are not reserved; with a fixed reservation at most the other slots take them, and with a fixed
offset, a cap and a clock that does not go back, a day has at most the cap and a chunk. -/
theorem serving_bounded (n cap : Nat) (offset : Int) (clock : Nat) (keys : KeyRing p)
    (content : ContentRegistry) (sets : List ChunkSet) (ops : List (ServeOp p)) :
    let s := started n cap offset clock keys content sets
    let t := run SwarmServer.step s ops
    t.Authorised ∧ s.SendsVerified ops ∧ t.AnswersNoted ∧ t.GrantsBySlot ∧
      (EveryStep SwarmServer.step (KeepsReservation (min n maxPriorityReserved)) s ops →
        t.conns.countP ConnCtx.takesAny ≤ maxConnections - min n maxPriorityReserved) ∧
      (0 < cap → cap ≤ maxU64 → EveryStep SwarmServer.step (KeepsBudget cap offset) s ops →
        ∀ day, admittedOn day t.history ≤ cap + chunkSize) := by
  intro s t
  have hstart : s.Lawful := lawful_started n cap offset clock keys content sets
  have hlawful : t.Lawful := lawful_run hstart ops
  refine ⟨authorised_of_lawful hlawful, sendsVerified_run hstart rfl rfl ops,
    answersNoted_of_lawful hlawful, ?_, ?_, ?_⟩
  · intro conn root payload hmem hpri
    obtain ⟨ctx, hctx, -, hslot⟩ := hlawful.events _ hmem
    exact ⟨ctx, hctx, hslot hpri⟩
  · intro hkeep
    have hseated : s.Seated (min n maxPriorityReserved) := ⟨rfl, rfl, Nat.zero_le _⟩
    exact seated_run hseated hkeep
  · intro hpositive hcap hkeep
    exact rationed_run hcap (rationed_started n offset clock keys content sets hpositive) hstart hkeep

end SwarmServer

/-! ## A device -/

/-- The root of a file of the bytes 1, 2 and 3. -/
def sampleRoot : String := "908e673c1c7fae16b2d5dfac899fa6286029046c67e117ce17edc7c455d79a8b"

/-- The payload of a ticket in JSON. -/
def samplePayload : List UInt8 :=
  "\x7b\"v\":1,\"kid\":\"k1\",\"sid\":\"s1\",\"rep\":\"peer\",\"exp\":100,\"scope\":\"swarm\",\"root\":\"908e673c1c7fae16b2d5dfac899fa6286029046c67e117ce17edc7c455d79a8b\"\x7d".toUTF8.data.toList

/-- The functions of other packages on the ticket and the bytes of the sample. -/
def samplePrimitives : Primitives where
  PublicKey := String
  toZ32 := id
  verify := fun key message signature ↦
    key == "issuer" && message == samplePayload && signature == Vector.replicate 64 0
  blake3 := fun _ ↦ #v[177, 119, 236, 27, 242, 109, 251, 59, 112, 16, 212, 115, 230, 212, 71, 19, 178, 155, 118, 91, 153, 198, 230, 14, 203, 250, 231, 66, 222, 73, 101, 67]
  decodeBase64 := fun text ↦
    if text = "eyJ2IjoxLCJraWQiOiJrMSIsInNpZCI6InMxIiwicmVwIjoicGVlciIsImV4cCI6MTAwLCJzY29wZSI6InN3YXJtIiwicm9vdCI6IjkwOGU2NzNjMWM3ZmFlMTZiMmQ1ZGZhYzg5OWZhNjI4NjAyOTA0NmM2N2UxMTdjZTE3ZWRjN2M0NTVkNzlhOGIifQ" then some samplePayload
    else if text.toList = List.replicate 86 'A' then some (List.replicate 64 0)
    else none
  parsePayload := fun bytes ↦
    if bytes = samplePayload then some ⟨1, "k1", "s1", "peer", 100, "swarm", some sampleRoot, 0⟩
    else none

/-- The key of the issuer. -/
def sampleKeys : KeyRing samplePrimitives := fun kid ↦
  if kid = "k1" then some ⟨"issuer", none⟩ else none

/-- The file of three bytes. -/
def sampleFile : ShareFile :=
  ⟨3, ["b177ec1bf26dfb3b7010d473e6d44713b29b765b99c6e60ecbfae742de496543"], sampleRoot⟩

/-- The ticket. -/
def sampleTicket : String :=
  "eyJ2IjoxLCJraWQiOiJrMSIsInNpZCI6InMxIiwicmVwIjoicGVlciIsImV4cCI6MTAwLCJzY29wZSI6InN3YXJtIiwicm9vdCI6IjkwOGU2NzNjMWM3ZmFlMTZiMmQ1ZGZhYzg5OWZhNjI4NjAyOTA0NmM2N2UxMTdjZTE3ZWRjN2M0NTVkNzlhOGIifQ." ++
    String.ofList (List.replicate 86 'A')

/-- A content, as far as the root is one. -/
def sampleContent (entry : ContentEntry) : ContentRegistry :=
  ContentRegistry.replaceAll ((parseHash sampleRoot).toList.map fun root ↦ (root, entry))

/-- The connection is served and granted the content. -/
def grantOps : List (ServeOp samplePrimitives) :=
  [.connect "peer", .seat 0, .request 0 (.grant sampleTicket), .advance 0 .go, .advance 0 .go,
    .advance 0 .go, .advance 0 .go]

/-- A chunk is asked for until its bytes are taken from the budget. -/
def getOps (call chunk : Nat) : List (ServeOp samplePrimitives) :=
  [.request 0 (.get sampleRoot chunk), .advance call .go, .advance call .go, .advance call .go,
    .advance call .go]

/-- A chunk that waits for a permit is read and sent. -/
def sendOps (call : Nat) : List (ServeOp samplePrimitives) :=
  [.advance call .go, .advance call .go, .advance call (.read (some [1, 2, 3]))]

/-- A device that downloads the file. -/
def sampleServer : SwarmServer samplePrimitives :=
  .started 2 chunkSize 0 50 sampleKeys (sampleContent ⟨3, .incomplete "file.part" sampleFile 0⟩)
    [ChunkSet.new 1]

/-- The chunk is downloaded, asked for and sent. -/
def sampleServeOps : List (ServeOp samplePrimitives) :=
  .insertChunk 0 0 :: (grantOps ++ getOps 1 0 ++ sendOps 1)

/-- A device with a part of a file sends a chunk and stays within its bounds. -/
theorem serving_bounded_sample :
    let t := run SwarmServer.step sampleServer sampleServeOps
    t.history.any ServeEvent.isAnswer = true ∧ t.Authorised ∧
      sampleServer.SendsVerified sampleServeOps ∧ t.AnswersNoted ∧
        t.conns.countP ConnCtx.takesAny ≤ 30 ∧
          ∀ day, admittedOn day t.history ≤ chunkSize + chunkSize := by
  obtain ⟨hauthorised, hverified, hnoted, -, hseats, hbudget⟩ := SwarmServer.serving_bounded 2
    chunkSize 0 50 sampleKeys (sampleContent ⟨3, .incomplete "file.part" sampleFile 0⟩)
    [ChunkSet.new 1] sampleServeOps
  refine ⟨?_, hauthorised, hverified, hnoted, hseats ?_, hbudget (by decide) (by decide) ?_⟩
  · decide +kernel
  · simp [sampleServeOps, grantOps, getOps, sendOps, EveryStep, SwarmServer.KeepsReservation]
  · simp [sampleServeOps, grantOps, getOps, sendOps, EveryStep, SwarmServer.KeepsBudget]

/-! ## Where more is given away -/

/-- A ticket behind each answer has not expired when the answer is sent. -/
def SwarmServer.Unexpired (s : SwarmServer p) : Prop :=
  ∀ conn call root entry answer now, .answered conn call root entry answer now ∈ s.history →
    ∃ (ring : KeyRing p) (ticket : Ticket) (acceptedAt : Nat) (payload : TicketPayload),
      .accepted conn ring ticket acceptedAt payload ∈ s.history ∧
        payload.root.bind parseHash = some root ∧ now < payload.exp

/-- The ticket expires while the call waits for a permit. -/
def lateOps : List (ServeOp samplePrimitives) :=
  .insertChunk 0 0 :: (grantOps ++ getOps 1 0 ++ .setClock 200 :: sendOps 1)

/-- The clock shows the next day for a while. -/
def nextDayOps : List (ServeOp samplePrimitives) :=
  [.setClock 86450, .dailyUsage, .setClock 50]

/-- A device with a complete file of two chunks. -/
def completeServer (cap : Nat) : SwarmServer samplePrimitives :=
  .started 2 cap 0 50 sampleKeys (sampleContent ⟨2 * chunkSize, .complete "file" 0⟩) []

/-- When the event happened, if it is an answer. -/
private def answeredAt : ServeEvent p → Option Nat
  | .answered _ _ _ _ _ now => some now
  | _ => none

/-- When the accepted ticket expires. -/
private def acceptedUntil : ServeEvent p → Option Nat
  | .accepted _ _ _ _ payload => some payload.exp
  | _ => none

private theorem not_unexpired {s : SwarmServer p} {now : Nat}
    (hanswered : now ∈ s.history.filterMap answeredAt)
    (haccepted : ∀ exp ∈ s.history.filterMap acceptedUntil, exp ≤ now) : ¬s.Unexpired := by
  intro h
  obtain ⟨event, hevent, hnow⟩ := List.mem_filterMap.mp hanswered
  cases event with
  | answered conn call root entry answer now' =>
    cases hnow
    obtain ⟨ring, ticket, acceptedAt, payload, hmem, -, hlt⟩ :=
      h conn call root entry answer now hevent
    exact absurd (haccepted payload.exp (List.mem_filterMap.mpr ⟨_, hmem, rfl⟩))
      (Nat.not_le.mpr hlt)
  | _ => cases hnow

/-- Data is sent after the ticket expired, without a cap a day has more than a chunk, and a clock
that goes back lets a day have the cap three times. -/
theorem serving_exceeds :
    ¬(run SwarmServer.step sampleServer lateOps).Unexpired ∧
      ¬(∀ day, admittedOn day (run SwarmServer.step (completeServer 0)
        (grantOps ++ getOps 1 0 ++ getOps 2 1)).history ≤ 0 + chunkSize) ∧
      ¬(∀ day, admittedOn day (run SwarmServer.step (completeServer chunkSize)
        (grantOps ++ getOps 1 0 ++ nextDayOps ++ getOps 2 0 ++ nextDayOps ++ getOps 3 0)).history ≤
          chunkSize + chunkSize) := by
  -- one evaluation for all runs: they begin alike, and reading the ticket takes longest
  have hruns : (200 ∈ (run SwarmServer.step sampleServer lateOps).history.filterMap answeredAt ∧
      ∀ exp ∈ (run SwarmServer.step sampleServer lateOps).history.filterMap acceptedUntil,
        exp ≤ 200) ∧
      ¬admittedOn 0 (run SwarmServer.step (completeServer 0)
        (grantOps ++ getOps 1 0 ++ getOps 2 1)).history ≤ 0 + chunkSize ∧
      ¬admittedOn 0 (run SwarmServer.step (completeServer chunkSize)
        (grantOps ++ getOps 1 0 ++ nextDayOps ++ getOps 2 0 ++ nextDayOps ++ getOps 3 0)).history ≤
          chunkSize + chunkSize := by
    decide +kernel
  obtain ⟨⟨hanswered, haccepted⟩, huncapped, hback⟩ := hruns
  exact ⟨not_unexpired hanswered haccepted, fun h ↦ huncapped (h 0), fun h ↦ hback (h 0)⟩

end Share
