import FluxDown.Share.SwarmAuthority

/-!
# What a swarm server sends

Library `Share`. A section of a call notes at most one event. A call keeps the content that it found
in the registry after it was checked. It sends the marks of the content's set, a piece of the
file only if the content is complete, and a chunk of an incomplete content only if its set holds the
chunk and the bytes just read verify against its file.
-/

namespace Share

open Base

variable {p : Primitives}

/-- Bytes that the event takes from the budget of the day. -/
def ServeEvent.admittedOn (day : Int) : ServeEvent p → Option Nat
  | .admitted day' len => if day' = day then some len else none
  | _ => none

/-- The event is an answer. -/
def ServeEvent.isAnswer : ServeEvent p → Bool
  | .answered .. => true
  | _ => false

/-- The content that a call serves, from the moment it found it. -/
def CallPhase.content : CallPhase → Option (Hash × ContentEntry)
  | .located root entry _ | .admitted root entry _ | .holding root entry _
  | .pumping root entry _ | .reading root entry _ _ _ => some (root, entry)
  | _ => none

namespace SwarmServer

variable {s t : SwarmServer p}

/-- The marks of the content's set (`serve.rs:687–716`). -/
def marks (s : SwarmServer p) (entry : ContentEntry) : List UInt8 :=
  match entry.source with
  | .complete .. => []
  | .incomplete _ _ held => (s.sets[held]?.map ChunkSet.toBytes).getD []

/-- A section of a call in the phase sends the answer. -/
inductive Sends (s : SwarmServer p) (outcome : Outcome) :
    CallPhase → Hash → ContentEntry → Answer → Prop where
  | marks {root : Hash} {entry : ContentEntry} (registered : s.content root = some entry) :
    Sends s outcome (.timely .held root) root entry (.bitmap (s.marks entry))
  | stored {root : Hash} {entry : ContentEntry} {piece : Piece} {data : List UInt8}
      {complete : Bool} (pumped : outcome = .pumped data complete) :
    Sends s outcome (.pumping root entry piece) root entry (.stored piece.chunk data)
  | checked {root : Hash} {entry : ContentEntry} {file : ShareFile} {held : Nat} {piece : Piece}
      {data : List UInt8} (read : outcome = .read (some data))
      (verified : verifyChunk p.blake3 file piece.chunk data = .ok ()) :
    Sends s outcome (.reading root entry file held piece) root entry (.checked piece.chunk data)

/-- The call serves the content, or was checked and finds it in the registry. -/
def Offers (s : SwarmServer p) (conn n : Nat) (root : Hash) (entry : ContentEntry) : Prop :=
  ∃ call, s.calls[n]? = some call ∧ call.conn = conn ∧
    (call.phase.content = some (root, entry) ∨
      (∃ query, call.phase = .timely query root) ∧ s.content root = some entry)

/-! ## What a section of a call does -/

/-- What a section of a call does to the budget and to the history. -/
inductive Effect (s : SwarmServer p) (n : Nat) (outcome : Outcome) :
    DailyBudget → List (ServeEvent p) → Prop where
  | silent : Effect s n outcome s.daily s.history
  | noted (event : ServeEvent p) (quiet : ∀ day, event.admittedOn day = none)
      (unanswered : event.isAnswer = false) : Effect s n outcome s.daily (s.history ++ [event])
  | answered (call : Call) (root : Hash) (entry : ContentEntry) (answer : Answer) (now : Nat)
      (found : s.calls[n]? = some call) (sent : s.Sends outcome call.phase root entry answer) :
      Effect s n outcome s.daily (s.history ++ [.answered call.conn n root entry answer now])
  | taken (call : Call) (root : Hash) (entry : ContentEntry) (piece : Piece)
      (found : s.calls[n]? = some call) (located : call.phase = .located root entry piece)
      (taken : (s.daily.tryTake s.clock piece.len).2 = true) :
      Effect s n outcome (s.daily.tryTake s.clock piece.len).1
        (s.history ++ [.admitted (s.daily.tryTake s.clock piece.len).1.day piece.len])
  | refused : Effect s n outcome (s.daily.roll s.clock) s.history

/-- Parts of a step that neither count nor seat a connection. -/
structure SameSeats (s t : SwarmServer p) : Prop where
  reserved : t.priorityReserved = s.priorityReserved
  connections : t.connections = s.connections
  slots : t.conns.map (fun ctx ↦ (ctx.phase, ctx.reservedSlot)) =
    s.conns.map fun ctx ↦ (ctx.phase, ctx.reservedSlot)

/-- What a section of a call does. -/
structure Advances (s : SwarmServer p) (n : Nat) (outcome : Outcome) (t : SwarmServer p) :
    Prop where
  clock : t.clock = s.clock
  seats : SameSeats s t
  effect : Effect s n outcome t.daily t.history
  /-- Calls keep the contents they serve. -/
  offers : ∀ (m : Nat) (call : Call) root entry, t.calls[m]? = some call →
    call.phase.content = some (root, entry) → s.Offers call.conn m root entry

private theorem offers_of_calls (hcalls : t.calls = s.calls) {m : Nat} {call : Call} {root : Hash}
    {entry : ContentEntry} (hcall : t.calls[m]? = some call)
    (hcontent : call.phase.content = some (root, entry)) : s.Offers call.conn m root entry :=
  ⟨call, hcalls ▸ hcall, rfl, Or.inl hcontent⟩

/-- A call goes to a phase in which it serves what it offered. -/
theorem offers_setPhase {n : Nat} {call : Call} {new : CallPhase}
    (hcalls : t.calls = s.calls.modify n fun call ↦ { call with phase := new })
    (hcall : s.calls[n]? = some call)
    (hnew : ∀ root entry, new.content = some (root, entry) → s.Offers call.conn n root entry)
    (m : Nat) (call' : Call) (root : Hash) (entry : ContentEntry)
    (hcall' : t.calls[m]? = some call') (hcontent : call'.phase.content = some (root, entry)) :
    s.Offers call'.conn m root entry := by
  rw [hcalls] at hcall'
  rcases getElem?_modify_some hcall' with ⟨rfl, x, hx, rfl⟩ | ⟨-, hother⟩
  · rw [hcall] at hx
    cases hx
    exact hnew root entry hcontent
  · exact offers_of_calls rfl hother hcontent

/-- A phase in which nothing is served. -/
theorem offers_none {n : Nat} {call : Call} {new : CallPhase} (hnone : new.content = none)
    (root : Hash) (entry : ContentEntry) (hcontent : new.content = some (root, entry)) :
    s.Offers call.conn n root entry := by
  rw [hnone] at hcontent
  cases hcontent

/-- The same content is served on. -/
theorem offers_same {n : Nat} {call : Call} (hcall : s.calls[n]? = some call)
    {new : CallPhase} (hsame : new.content = call.phase.content) (root : Hash)
    (entry : ContentEntry) (hcontent : new.content = some (root, entry)) :
    s.Offers call.conn n root entry :=
  ⟨call, hcall, rfl, Or.inl (hsame ▸ hcontent)⟩

section Sections

variable {n : Nat} {call : Call} {outcome : Outcome}

private theorem Advances.refl (s : SwarmServer p) (n : Nat) (outcome : Outcome) :
    Advances s n outcome s :=
  ⟨rfl, ⟨rfl, rfl, rfl⟩, .silent, fun _ _ _ _ ↦ offers_of_calls rfl⟩

private theorem Advances.setPhase (hcall : s.calls[n]? = some call) {old new : CallPhase}
    (hnew : ∀ root entry, new.content = some (root, entry) → s.Offers call.conn n root entry) :
    Advances s n outcome (s.setPhase n old new) :=
  ⟨rfl, ⟨rfl, rfl, rfl⟩, .silent, offers_setPhase rfl hcall hnew⟩

/-- A call goes to a phase in which it serves nothing. -/
theorem Advances.stop (hcall : s.calls[n]? = some call) {old new : CallPhase}
    (hnone : new.content = none) : Advances s n outcome (s.setPhase n old new) :=
  Advances.setPhase hcall (offers_none hnone)

/-- A call serves its content on. -/
theorem Advances.keep (hcall : s.calls[n]? = some call) {old new : CallPhase}
    (hsame : new.content = call.phase.content) : Advances s n outcome (s.setPhase n old new) :=
  Advances.setPhase hcall (offers_same hcall hsame)

private theorem Advances.note (hcall : s.calls[n]? = some call) {event : ServeEvent p}
    {old new : CallPhase} (hquiet : ∀ day, event.admittedOn day = none)
    (hunanswered : event.isAnswer = false) (hnone : new.content = none) :
    Advances s n outcome ((s.log event).setPhase n old new) :=
  ⟨rfl, ⟨rfl, rfl, rfl⟩, .noted event hquiet hunanswered,
    offers_setPhase rfl hcall (offers_none hnone)⟩

private theorem Advances.answer (hcall : s.calls[n]? = some call) {root : Hash}
    {entry : ContentEntry} {answer : Answer} (now : Nat) {old new : CallPhase}
    (hsent : s.Sends outcome call.phase root entry answer) (hnone : new.content = none) :
    Advances s n outcome
      ((s.log (.answered call.conn n root entry answer now)).setPhase n old new) :=
  ⟨rfl, ⟨rfl, rfl, rfl⟩, .answered call root entry answer now hcall hsent,
    offers_setPhase rfl hcall (offers_none hnone)⟩

private theorem advances_advanceGrant (hcall : s.calls[n]? = some call) (ctx : ConnCtx p) :
    Advances s n outcome (s.advanceGrant n call.conn ctx call.phase) := by
  obtain ⟨conn, phase⟩ := call
  cases phase with
  | parsed ticket now =>
    simp only [advanceGrant]
    split
    · exact Advances.stop hcall rfl
    · split
      · exact Advances.note hcall (fun _ ↦ rfl) rfl rfl
      · exact Advances.note hcall (fun _ ↦ rfl) rfl rfl
  | verified payload root =>
    simp only [advanceGrant]
    split
    · exact Advances.stop hcall rfl
    · split
      · exact Advances.stop hcall rfl
      · exact Advances.stop hcall rfl
  | found payload root entry =>
    refine ⟨rfl, ⟨rfl, rfl, ?_⟩, .silent, offers_setPhase rfl hcall (offers_none rfl)⟩
    apply map_modify_of_view
    exact fun _ ↦ rfl
  | sessionOpen payload root entry =>
    simp only [advanceGrant]
    split
    · exact Advances.stop hcall rfl
    · refine ⟨rfl, ⟨rfl, rfl, ?_⟩, .noted (.granted conn root payload) (fun _ ↦ rfl) rfl,
        offers_setPhase rfl hcall (offers_none rfl)⟩
      apply map_modify_of_view
      exact fun _ ↦ rfl
  | _ => exact Advances.refl s n outcome

private theorem advances_serveQuery {conn : Nat} {query : Query} {root : Hash}
    {entry : ContentEntry} (hcall : s.calls[n]? = some ⟨conn, .timely query root⟩)
    (hregistered : s.content root = some entry) (ctx : ConnCtx p) :
    Advances s n outcome (s.serveQuery n conn ctx query root entry) := by
  cases query with
  | held =>
    have hsent : s.Sends outcome (.timely .held root) root entry (.bitmap (s.marks entry)) :=
      .marks hregistered
    unfold SwarmServer.marks at hsent
    simp only [serveQuery]
    split
    · next hsource =>
      rw [hsource] at hsent
      exact Advances.answer hcall s.clock hsent rfl
    · next hsource =>
      rw [hsource] at hsent
      exact Advances.answer hcall s.clock hsent rfl
  | get chunk =>
    simp only [serveQuery]
    split
    · exact Advances.stop hcall rfl
    · split
      · exact Advances.stop hcall rfl
      · apply Advances.setPhase hcall
        intro root' entry' hcontent
        cases hcontent
        exact ⟨_, hcall, rfl, Or.inr ⟨⟨_, rfl⟩, hregistered⟩⟩

private theorem advances_holding {conn : Nat} {root : Hash} {entry : ContentEntry} {piece : Piece}
    (hcall : s.calls[n]? = some ⟨conn, .holding root entry piece⟩) (ctx : ConnCtx p) :
    Advances s n outcome (s.advanceQuery n conn ctx outcome (.holding root entry piece)) := by
  simp only [advanceQuery]
  split
  · exact Advances.stop hcall rfl
  · split
    · exact Advances.stop hcall rfl
    · split
      · exact Advances.stop hcall rfl
      · split
        · exact Advances.stop hcall rfl
        · exact Advances.keep hcall rfl
  · split
    · exact Advances.keep hcall rfl
    · exact Advances.stop hcall rfl
  · exact Advances.refl s n _

private theorem advances_located {conn : Nat} {root : Hash} {entry : ContentEntry} {piece : Piece}
    (hcall : s.calls[n]? = some ⟨conn, .located root entry piece⟩) (ctx : ConnCtx p) :
    Advances s n outcome (s.advanceQuery n conn ctx outcome (.located root entry piece)) := by
  simp only [advanceQuery]
  split
  · next htaken =>
    exact ⟨rfl, ⟨rfl, rfl, rfl⟩, .taken _ root entry piece hcall rfl htaken,
      offers_setPhase rfl hcall (offers_same hcall rfl)⟩
  · next htaken =>
    have hrolled : (s.daily.tryTake s.clock piece.len).1 = s.daily.roll s.clock := by
      unfold DailyBudget.tryTake at htaken ⊢
      simp only at htaken ⊢
      split
      · rfl
      · next hroom => exact absurd (by rw [if_neg hroom]) htaken
    rw [hrolled]
    exact ⟨rfl, ⟨rfl, rfl, rfl⟩, .refused, offers_setPhase rfl hcall (offers_none rfl)⟩

private theorem advances_advanceQuery (hcall : s.calls[n]? = some call) (ctx : ConnCtx p) :
    Advances s n outcome (s.advanceQuery n call.conn ctx outcome call.phase) := by
  obtain ⟨conn, phase⟩ := call
  cases phase with
  | asked =>
    simp only [advanceQuery]
    split
    · exact Advances.stop hcall rfl
    · exact Advances.stop hcall rfl
  | granted =>
    simp only [advanceQuery]
    split
    · exact Advances.stop hcall rfl
    · exact Advances.note hcall (fun _ ↦ rfl) rfl rfl
  | timely query root =>
    simp only [advanceQuery]
    split
    · exact Advances.stop hcall rfl
    · next hregistered => exact advances_serveQuery hcall hregistered ctx
  | located => exact advances_located hcall ctx
  | admitted =>
    simp only [advanceQuery]
    split
    · exact Advances.refl s n outcome
    · exact ⟨rfl, ⟨rfl, rfl, rfl⟩, .silent, offers_setPhase rfl hcall (offers_same hcall rfl)⟩
  | holding => exact advances_holding hcall ctx
  | pumping root entry piece =>
    simp only [advanceQuery]
    split
    · next data complete =>
      apply Advances.answer hcall s.clock (.stored rfl)
      cases complete <;> rfl
    · exact Advances.refl s n outcome
  | reading =>
    simp only [advanceQuery]
    split
    · exact Advances.stop hcall rfl
    · split
      · exact Advances.stop hcall rfl
      · next hverified => exact Advances.answer hcall s.clock (.checked rfl hverified) rfl
    · exact Advances.refl s n outcome
  | _ => exact Advances.refl s n outcome

end Sections

/-- A section of a call seats no connection, notes at most one event, takes bytes from the
budget only for a piece it has located, and serves what it found in the registry. -/
theorem advances_advance (s : SwarmServer p) (n : Nat) (outcome : Outcome) :
    Advances s n outcome (s.advance n outcome) := by
  unfold SwarmServer.advance
  split
  · exact Advances.refl s n outcome
  · next call hcall =>
    split
    · exact Advances.refl s n outcome
    · split
      · exact advances_advanceGrant hcall _
      · exact advances_advanceGrant hcall _
      · exact advances_advanceGrant hcall _
      · exact advances_advanceGrant hcall _
      · exact advances_advanceQuery hcall _

/-! ## What is sent -/

/-- What may be sent of the content: the marks of its set, a piece of the file if it is complete,
and a chunk if it is not, but its set holds the chunk and the bytes just read verify. -/
def MaySend (s : SwarmServer p) (entry : ContentEntry) (outcome : Outcome) : Answer → Prop
  | .bitmap bytes => bytes = s.marks entry
  | .stored _ data => entry.isComplete = true ∧ ∃ complete, outcome = .pumped data complete
  | .checked chunk data => ∃ path file held, entry.source = .incomplete path file held ∧
      outcome = .read (some data) ∧ verifyChunk p.blake3 file chunk data = .ok () ∧
        s.Holds held chunk

/-- The registry had the content for the root at a moment before, when the call was checked. -/
def Registered (s : SwarmServer p) (ops : List (ServeOp p)) (conn call : Nat) (root : Hash)
    (entry : ContentEntry) : Prop :=
  ∃ earlier later, ops = earlier ++ later ∧
    (run SwarmServer.step s earlier).content root = some entry ∧
      Timely (run SwarmServer.step s earlier).history conn call root

/-- Each answer is sent by a section of its call, of the content that the registry had for the
root, and may be sent of it at that moment. -/
def SendsVerified (s : SwarmServer p) (ops : List (ServeOp p)) : Prop :=
  ∀ conn call root entry answer now,
    .answered conn call root entry answer now ∈ (run SwarmServer.step s ops).history →
      ∃ before outcome after, ops = before ++ .advance call outcome :: after ∧
        (run SwarmServer.step s before).MaySend entry outcome answer ∧
          s.Registered before conn call root entry

private theorem maySend_of_sends (h : s.Lawful) {n : Nat} {call : Call} {outcome : Outcome}
    {root : Hash} {entry : ContentEntry} {answer : Answer} (hcall : s.calls[n]? = some call)
    (hsent : s.Sends outcome call.phase root entry answer) : s.MaySend entry outcome answer := by
  have hbacks := h.calls n call hcall
  generalize call.phase = phase at hsent hbacks
  cases hsent with
  | marks => rfl
  | stored hpumped => exact ⟨hbacks.2, _, hpumped⟩
  | checked hread hverified =>
    obtain ⟨-, ⟨path, hsource⟩, hheld⟩ := hbacks
    exact ⟨path, _, _, hsource, hread, hverified, hheld⟩

private theorem offers_of_sends {n : Nat} {call : Call} {outcome : Outcome} {root : Hash}
    {entry : ContentEntry} {answer : Answer} (hcall : s.calls[n]? = some call)
    (hsent : s.Sends outcome call.phase root entry answer) :
    s.Offers call.conn n root entry := by
  refine ⟨call, hcall, rfl, ?_⟩
  generalize call.phase = phase at hsent
  cases hsent with
  | marks hregistered => exact Or.inr ⟨⟨_, rfl⟩, hregistered⟩
  | stored => exact Or.inl rfl
  | checked => exact Or.inl rfl

/-- Only a section of its call sends an answer. -/
theorem sends_of_answered {op : ServeOp p} {conn n now : Nat} {root : Hash}
    {entry : ContentEntry} {answer : Answer}
    (hold : .answered conn n root entry answer now ∉ s.history)
    (hnew : .answered conn n root entry answer now ∈ (s.step op).history) :
    ∃ outcome call, op = .advance n outcome ∧ s.calls[n]? = some call ∧ call.conn = conn ∧
      s.Sends outcome call.phase root entry answer := by
  cases op with
  | advance m outcome =>
    have heffect := (advances_advance s m outcome).effect
    change _ ∈ (s.advance m outcome).history at hnew
    generalize (s.advance m outcome).daily = daily at heffect
    generalize (s.advance m outcome).history = history at heffect hnew
    cases heffect with
    | silent => exact absurd hnew hold
    | noted event hquiet hunanswered =>
      rcases List.mem_append.mp hnew with hmem | hmem
      · exact absurd hmem hold
      · rw [← List.mem_singleton.mp hmem] at hunanswered
        cases hunanswered
    | answered call root' entry' answer' now' hcall hsent =>
      rcases List.mem_append.mp hnew with hmem | hmem
      · exact absurd hmem hold
      · cases List.mem_singleton.mp hmem
        exact ⟨outcome, call, rfl, hcall, rfl, hsent⟩
    | taken =>
      rcases List.mem_append.mp hnew with hmem | hmem
      · exact absurd hmem hold
      · cases List.mem_singleton.mp hmem
    | refused => exact absurd hnew hold
  | seat conn =>
    simp only [SwarmServer.step, SwarmServer.seat] at hnew
    split at hnew
    · split at hnew <;> exact absurd hnew hold
    · exact absurd hnew hold
  | finish conn =>
    simp only [SwarmServer.step, SwarmServer.finish] at hnew
    split at hnew <;> exact absurd hnew hold
  | request conn request =>
    simp only [SwarmServer.step, SwarmServer.request] at hnew
    split at hnew <;> exact absurd hnew hold
  | abandon n =>
    simp only [SwarmServer.step, SwarmServer.abandon] at hnew
    split at hnew <;> exact absurd hnew hold
  | _ => exact absurd hnew hold

/-! ## Where contents come from -/

/-- A content that a call serves after a step was offered before it. -/
theorem offers_step (op : ServeOp p) {n : Nat} {call : Call} {root : Hash}
    {entry : ContentEntry} (hcall : (s.step op).calls[n]? = some call)
    (hcontent : call.phase.content = some (root, entry)) : s.Offers call.conn n root entry := by
  have hsame : (s.step op).calls = s.calls → s.Offers call.conn n root entry :=
    fun hcalls ↦ offers_of_calls hcalls hcall hcontent
  cases op with
  | advance m outcome => exact (advances_advance s m outcome).offers n call root entry hcall hcontent
  | seat conn =>
    apply hsame
    simp only [SwarmServer.step, SwarmServer.seat]
    split
    · split <;> rfl
    · rfl
  | finish conn =>
    apply hsame
    simp only [SwarmServer.step, SwarmServer.finish]
    split <;> rfl
  | request conn request =>
    simp only [SwarmServer.step, SwarmServer.request] at hcall
    split at hcall
    · rcases getElem?_concat_some hcall with ⟨-, rfl⟩ | hold
      · cases request with
        | grant ticket =>
          simp only at hcontent
          split at hcontent <;> cases hcontent
        | held root =>
          simp only at hcontent
          split at hcontent <;> cases hcontent
        | get root chunk =>
          simp only at hcontent
          split at hcontent <;> cases hcontent
      · exact offers_of_calls rfl hold hcontent
    · exact offers_of_calls rfl hcall hcontent
  | abandon m =>
    simp only [SwarmServer.step, SwarmServer.abandon] at hcall
    split at hcall
    · exact offers_of_calls rfl hcall hcontent
    · next call' hcall' =>
      exact offers_setPhase rfl hcall' (offers_none rfl) n call root entry hcall hcontent
  | _ => exact hsame rfl

/-- Each call serves a content that was registered for its root. -/
private def Sourced (s : SwarmServer p) (ops : List (ServeOp p)) : Prop :=
  ∀ (n : Nat) (call : Call) root entry,
    (run SwarmServer.step s ops).calls[n]? = some call →
      call.phase.content = some (root, entry) → s.Registered ops call.conn n root entry

private theorem registered_of_offers {ops : List (ServeOp p)} (hsourced : s.Sourced ops)
    (hlawful : (run SwarmServer.step s ops).Lawful) {conn n : Nat} {root : Hash}
    {entry : ContentEntry} (h : (run SwarmServer.step s ops).Offers conn n root entry) :
    s.Registered ops conn n root entry := by
  obtain ⟨call, hcall, rfl, hcontent | ⟨⟨query, hphase⟩, hregistered⟩⟩ := h
  · exact hsourced n call root entry hcall hcontent
  · have hbacks := hlawful.calls n call hcall
    rw [hphase] at hbacks
    exact ⟨ops, [], (List.append_nil ops).symm, hregistered, hbacks⟩

private theorem Registered.later {ops : List (ServeOp p)} {conn n : Nat} {root : Hash}
    {entry : ContentEntry} (h : s.Registered ops conn n root entry) (op : ServeOp p) :
    s.Registered (ops ++ [op]) conn n root entry := by
  obtain ⟨earlier, later, rfl, hcontent, htimely⟩ := h
  exact ⟨earlier, later ++ [op], List.append_assoc _ _ _, hcontent, htimely⟩

private theorem sourced_run (hlawful : s.Lawful) (hnone : s.calls = [])
    (ops : List (ServeOp p)) : s.Sourced ops := by
  induction ops using List.reverseRecOn with
  | nil =>
    intro n call root entry hcall
    change s.calls[n]? = some call at hcall
    rw [hnone] at hcall
    cases hcall
  | append_singleton ops op ih =>
    intro n call root entry hcall hcontent
    rw [run_concat] at hcall
    have hoffers := offers_step op hcall hcontent
    exact (registered_of_offers ih (lawful_run hlawful ops) hoffers).later op

/-- In every run from a device that serves nothing yet, each answer may be sent of the content that
was registered for its root. -/
theorem sendsVerified_run (hlawful : s.Lawful) (hcalls : s.calls = []) (hhistory : s.history = [])
    (ops : List (ServeOp p)) : s.SendsVerified ops := by
  intro conn n root entry answer now hmem
  have hstart : .answered conn n root entry answer now ∉ s.history := by
    rw [hhistory]
    exact List.not_mem_nil
  obtain ⟨before, op, after, hops, hold, hnew⟩ := exists_step_of_run
    (Q := fun t : SwarmServer p ↦
      .answered conn n root entry answer now ∈ t.history) hstart hmem
  obtain ⟨outcome, call, rfl, hcall, rfl, hsent⟩ := sends_of_answered hold hnew
  have hbefore : (run SwarmServer.step s before).Lawful := lawful_run hlawful before
  exact ⟨before, outcome, after, hops, maySend_of_sends hbefore hcall hsent,
    registered_of_offers (sourced_run hlawful hcalls before) hbefore (offers_of_sends hcall hsent)⟩

end SwarmServer

end Share
