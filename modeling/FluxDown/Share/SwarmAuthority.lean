import FluxDown.Base.Indexed
import FluxDown.Share.SwarmServer

/-!
# What a swarm server gives away

Library `Share`. Data is sent on a connection only for a root that an accepted ticket of the same
connection names, after a check that the ticket had not expired; files are sent of complete contents only, and
a chunk of an incomplete content only if its set holds it. The invariant says of every call what
was established for it so far.
-/

namespace Share

open Base

variable {p : Primitives}

/-! ## What was established -/

/-- A ticket of the connection that names the root and expires at the time was accepted. -/
def Accepted (history : List (ServeEvent p)) (conn : Nat) (root : Hash) (exp : Nat) : Prop :=
  ∃ ring ticket now payload, .accepted conn ring ticket now payload ∈ history ∧
    payload.root.bind parseHash = some root ∧ payload.exp = exp

/-- The call was checked before the time at which the ticket behind its grant expires. -/
def Timely (history : List (ServeEvent p)) (conn call : Nat) (root : Hash) : Prop :=
  ∃ exp now, .timely conn call root exp now ∈ history ∧ now < exp ∧
    Accepted history conn root exp

/-- An answer to the call is in the history. -/
def Answered (history : List (ServeEvent p)) (conn call : Nat) : Prop :=
  ∃ root entry answer now, .answered conn call root entry answer now ∈ history

/-- A chunk is in a set of the device. -/
def SwarmServer.Holds (s : SwarmServer p) (held chunk : Nat) : Prop :=
  ∃ set, s.sets[held]? = some set ∧ set.contains chunk = true

/-- The connection was served or refused. -/
def ConnCtx.Settled (ctx : ConnCtx p) : Prop := ∀ before, ctx.phase ≠ .counted before

/-- A connection serves tickets with or without priority. -/
def SwarmServer.Serves (s : SwarmServer p) (conn pri : Nat) : Prop :=
  ∃ ctx, s.conns[conn]? = some ctx ∧ ctx.Settled ∧ (pri = 0 → ctx.reservedSlot = false)

/-- What holds of a call in its phase. -/
def SwarmServer.Backs (s : SwarmServer p) (conn call : Nat) : CallPhase → Prop
  | .parsed .. | .asked .. | .abandoned => True
  | .replied reply => reply.len = 0 ∨ Answered s.history conn call
  | .verified payload root => Accepted s.history conn root payload.exp
  | .found payload root _ | .sessionOpen payload root _ =>
    Accepted s.history conn root payload.exp ∧ s.Serves conn payload.pri
  | .granted _ root exp => Accepted s.history conn root exp
  | .timely _ root | .admitted root _ _ | .holding root _ _ => Timely s.history conn call root
  | .pumping root entry _ => Timely s.history conn call root ∧ entry.isComplete = true
  | .located root _ piece => Timely s.history conn call root ∧ piece.len ≤ chunkSize
  | .reading root entry file held piece => Timely s.history conn call root ∧
    (∃ path, entry.source = .incomplete path file held) ∧ s.Holds held piece.chunk

/-- What holds when an event is noted. -/
def SwarmServer.Allows (s : SwarmServer p) : ServeEvent p → Prop
  | .accepted conn ring ticket now payload => ∃ ctx, s.conns[conn]? = some ctx ∧
      verifyTicket ring ticket ⟨now, none, ctx.peer, [scopeSwarm]⟩ = .ok payload
  | .granted conn _ payload => s.Serves conn payload.pri
  | .timely .. | .admitted .. | .answered .. => True

/-- Every call, grant and event is backed. -/
structure SwarmServer.Lawful (s : SwarmServer p) : Prop where
  calls : ∀ (n : Nat) (call : Call), s.calls[n]? = some call → s.Backs call.conn n call.phase
  /-- Calls belong to connections that were served. -/
  served : ∀ (n : Nat) (call : Call), s.calls[n]? = some call →
    ∃ ctx, s.conns[call.conn]? = some ctx ∧ ctx.Settled
  grants : ∀ (conn : Nat) (ctx : ConnCtx p), s.conns[conn]? = some ctx → ∀ grant ∈ ctx.grants,
    Accepted s.history conn grant.1 grant.2
  events : ∀ event ∈ s.history, s.Allows event
  /-- A call is answered after it was checked. -/
  answered : ∀ before conn call root entry answer now after,
    s.history = before ++ .answered conn call root entry answer now :: after →
      Timely before conn call root

/-! ## Facts stay established -/

/-- What the device keeps: its history, its connections and the chunks it holds. -/
structure SwarmServer.Grows (s t : SwarmServer p) : Prop where
  history : s.history ⊆ t.history
  conns : ∀ (conn : Nat) (ctx : ConnCtx p), s.conns[conn]? = some ctx → ∃ ctx', t.conns[conn]? = some ctx' ∧
    ctx'.peer = ctx.peer ∧
      (ctx.Settled → ctx'.Settled ∧ ctx'.reservedSlot = ctx.reservedSlot)
  sets : ∀ held chunk, s.Holds held chunk → t.Holds held chunk

namespace SwarmServer

variable {s t : SwarmServer p}

private theorem Accepted.mono {history history' : List (ServeEvent p)} {conn exp : Nat}
    {root : Hash} (hsub : history ⊆ history') (h : Accepted history conn root exp) :
    Accepted history' conn root exp := by
  obtain ⟨ring, ticket, now, payload, hmem, hroot, hexp⟩ := h
  exact ⟨ring, ticket, now, payload, hsub hmem, hroot, hexp⟩

private theorem Timely.mono {history history' : List (ServeEvent p)} {conn call : Nat}
    {root : Hash} (hsub : history ⊆ history') (h : Timely history conn call root) :
    Timely history' conn call root := by
  obtain ⟨exp, now, hmem, hlt, haccepted⟩ := h
  exact ⟨exp, now, hsub hmem, hlt, Accepted.mono hsub haccepted⟩

private theorem Answered.mono {history history' : List (ServeEvent p)} {conn call : Nat}
    (hsub : history ⊆ history') (h : Answered history conn call) : Answered history' conn call := by
  obtain ⟨root, entry, answer, now, hmem⟩ := h
  exact ⟨root, entry, answer, now, hsub hmem⟩

private theorem Grows.serves (hg : s.Grows t) {conn pri : Nat} (h : s.Serves conn pri) :
    t.Serves conn pri := by
  obtain ⟨ctx, hctx, hphase, hslot⟩ := h
  obtain ⟨ctx', hctx', -, hkeep⟩ := hg.conns conn ctx hctx
  obtain ⟨hphase', hslot'⟩ := hkeep hphase
  exact ⟨ctx', hctx', hphase', fun hpri ↦ hslot'.trans (hslot hpri)⟩

private theorem Grows.backs (hg : s.Grows t) {conn call : Nat} {phase : CallPhase}
    (h : s.Backs conn call phase) : t.Backs conn call phase := by
  cases phase with
  | parsed | asked | abandoned => trivial
  | replied => exact h.imp_right (Answered.mono hg.history)
  | verified | granted => exact Accepted.mono hg.history h
  | found | sessionOpen => exact ⟨Accepted.mono hg.history h.1, hg.serves h.2⟩
  | timely | admitted | holding => exact Timely.mono hg.history h
  | pumping | located => exact ⟨Timely.mono hg.history h.1, h.2⟩
  | reading => exact ⟨Timely.mono hg.history h.1, h.2.1, hg.sets _ _ h.2.2⟩

private theorem Grows.allows (hg : s.Grows t) {event : ServeEvent p} (h : s.Allows event) :
    t.Allows event := by
  cases event with
  | accepted conn ring ticket now payload =>
    obtain ⟨ctx, hctx, hverify⟩ := h
    obtain ⟨ctx', hctx', hpeer, -⟩ := hg.conns conn ctx hctx
    exact ⟨ctx', hctx', hpeer ▸ hverify⟩
  | granted => exact hg.serves h
  | timely | admitted | answered => trivial

/-- A step that notes nothing and changes neither calls nor grants. -/
theorem Lawful.keep (h : s.Lawful) (hg : s.Grows t) (hhistory : t.history = s.history)
    (hcalls : t.calls = s.calls)
    (hgrants : ∀ (conn : Nat) (ctx : ConnCtx p), t.conns[conn]? = some ctx → ∀ grant ∈ ctx.grants,
      Accepted s.history conn grant.1 grant.2) : t.Lawful where
  calls := by
    intro n call hcall
    rw [hcalls] at hcall
    exact hg.backs (h.calls n call hcall)
  served := by
    intro n call hcall
    rw [hcalls] at hcall
    obtain ⟨ctx, hctx, hphase⟩ := h.served n call hcall
    obtain ⟨ctx', hctx', -, hkeep⟩ := hg.conns _ ctx hctx
    exact ⟨ctx', hctx', (hkeep hphase).1⟩
  grants := by
    intro conn ctx hctx grant hgrant
    rw [hhistory]
    exact hgrants conn ctx hctx grant hgrant
  events := by
    intro event hevent
    rw [hhistory] at hevent
    exact hg.allows (h.events event hevent)
  answered := by
    rw [hhistory]
    exact h.answered

/-! ## The parts of a step -/

private theorem Grows.of_eq (hhistory : t.history = s.history) (hconns : t.conns = s.conns)
    (hsets : t.sets = s.sets) : s.Grows t where
  history := by rw [hhistory]; exact List.Subset.refl _
  conns := by
    intro conn ctx hctx
    exact ⟨ctx, hconns ▸ hctx, rfl, fun hphase ↦ ⟨hphase, rfl⟩⟩
  sets := by
    intro held chunk h
    unfold Holds at h ⊢
    rwa [hsets]

/-- Clock, keys, contents and counters play no part. -/
theorem Lawful.of_eq (h : s.Lawful) (hhistory : t.history = s.history)
    (hconns : t.conns = s.conns) (hsets : t.sets = s.sets) (hcalls : t.calls = s.calls) :
    t.Lawful :=
  h.keep (Grows.of_eq hhistory hconns hsets) hhistory hcalls (by rw [hconns]; exact h.grants)

private theorem lawful_log (h : s.Lawful) (event : ServeEvent p) (hevent : s.Allows event)
    (htimely : ∀ conn call root entry answer now,
      event = .answered conn call root entry answer now → Timely s.history conn call root) :
    (s.log event).Lawful := by
  have hsub : s.history ⊆ s.history ++ [event] := List.subset_append_left _ _
  have hg : s.Grows (s.log event) :=
    ⟨hsub, fun conn ctx hctx ↦ ⟨ctx, hctx, rfl, fun hphase ↦ ⟨hphase, rfl⟩⟩, fun _ _ h ↦ h⟩
  refine ⟨?_, h.served, ?_, ?_, ?_⟩
  · exact fun n call hcall ↦ hg.backs (h.calls n call hcall)
  · exact fun conn ctx hctx grant hgrant ↦ Accepted.mono hsub (h.grants conn ctx hctx grant hgrant)
  · intro event' hevent'
    rcases List.mem_append.mp hevent' with hold | hnew
    · exact hg.allows (h.events event' hold)
    · rw [List.mem_singleton.mp hnew]
      exact hg.allows hevent
  · intro before conn call root entry answer now after hsplit
    rcases append_cons_eq_concat hsplit with ⟨hbefore, hlast, -⟩ | ⟨rest, -, hinner⟩
    · rw [hbefore]
      exact htimely conn call root entry answer now hlast.symm
    · exact h.answered before conn call root entry answer now rest hinner

private theorem lawful_answered (h : s.Lawful) {conn call : Nat} {root : Hash}
    (entry : ContentEntry) (answer : Answer) (now : Nat)
    (htimely : Timely s.history conn call root) :
    (s.log (.answered conn call root entry answer now)).Lawful := by
  apply lawful_log h (.answered conn call root entry answer now) trivial
  intro _ _ _ _ _ _ hevent
  cases hevent
  exact htimely

private theorem answered_log (s : SwarmServer p) (conn call : Nat) (root : Hash)
    (entry : ContentEntry) (answer : Answer) (now : Nat) :
    Answered (s.log (.answered conn call root entry answer now)).history conn call :=
  ⟨root, entry, answer, now, List.mem_append_right _ (List.mem_singleton.mpr rfl)⟩

private theorem lawful_setPhase (h : s.Lawful) {n : Nat} {call : Call} {old new : CallPhase}
    (hcall : s.calls[n]? = some call) (hnew : s.Backs call.conn n new) :
    (s.setPhase n old new).Lawful := by
  have hg : s.Grows (s.setPhase n old new) := Grows.of_eq rfl rfl rfl
  have hcases : ∀ m call', (s.setPhase n old new).calls[m]? = some call' →
      (m = n ∧ call' = { call with phase := new }) ∨ s.calls[m]? = some call' := by
    intro m call' hcall'
    rcases getElem?_modify_some hcall' with ⟨rfl, x, hx, rfl⟩ | ⟨-, hother⟩
    · rw [hcall] at hx
      cases hx
      exact Or.inl ⟨rfl, rfl⟩
    · exact Or.inr hother
  refine ⟨?_, ?_, h.grants, fun event hevent ↦ hg.allows (h.events event hevent), h.answered⟩
  · intro m call' hcall'
    rcases hcases m call' hcall' with ⟨rfl, rfl⟩ | hother
    · exact hg.backs hnew
    · exact hg.backs (h.calls m call' hother)
  · intro m call' hcall'
    rcases hcases m call' hcall' with ⟨rfl, rfl⟩ | hother
    · exact h.served m call hcall
    · exact h.served m call' hother

private theorem grows_updateConn (s : SwarmServer p) (conn : Nat) (f : ConnCtx p → ConnCtx p)
    (hpeer : ∀ ctx, (f ctx).peer = ctx.peer)
    (hphase : ∀ ctx, s.conns[conn]? = some ctx → (∀ before, ctx.phase ≠ .counted before) →
      (∀ before, (f ctx).phase ≠ .counted before) ∧ (f ctx).reservedSlot = ctx.reservedSlot) :
    s.Grows (s.updateConn conn f) where
  history := List.Subset.refl _
  conns := by
    intro m ctx hctx
    by_cases hsame : conn = m
    · subst hsame
      refine ⟨f ctx, ?_, hpeer ctx, hphase ctx hctx⟩
      change (s.conns.modify conn f)[conn]? = _
      rw [List.getElem?_modify_eq, hctx]
      rfl
    · refine ⟨ctx, ?_, rfl, fun h ↦ ⟨h, rfl⟩⟩
      change (s.conns.modify conn f)[m]? = _
      rw [List.getElem?_modify_ne _ _ hsame, hctx]
  sets := fun _ _ h ↦ h

private theorem lawful_updateConn (h : s.Lawful) (conn : Nat) (f : ConnCtx p → ConnCtx p)
    (hpeer : ∀ ctx, (f ctx).peer = ctx.peer)
    (hphase : ∀ ctx, s.conns[conn]? = some ctx → ctx.Settled →
      (f ctx).Settled ∧ (f ctx).reservedSlot = ctx.reservedSlot)
    (hgrants : ∀ ctx, s.conns[conn]? = some ctx → ∀ grant ∈ (f ctx).grants,
      Accepted s.history conn grant.1 grant.2) : (s.updateConn conn f).Lawful := by
  apply h.keep (grows_updateConn s conn f hpeer hphase) rfl rfl
  intro m ctx hctx
  rcases getElem?_modify_some hctx with ⟨rfl, x, hx, rfl⟩ | ⟨-, hother⟩
  · exact hgrants x hx
  · exact h.grants m ctx hother

/-! ## Calls -/

/-- A call whose phase says so moves on. -/
theorem Lawful.moveOn (h : s.Lawful) {n : Nat} {call : Call} {old new : CallPhase}
    (hcall : s.calls[n]? = some call)
    (hnew : s.Backs call.conn n call.phase → s.Backs call.conn n new) :
    (s.setPhase n old new).Lawful :=
  lawful_setPhase h hcall (hnew (h.calls n call hcall))

/-- A call ends with a reply without data. -/
theorem Lawful.refuse (h : s.Lawful) {n : Nat} {call : Call} {old : CallPhase}
    {reply : SwarmReply} (hcall : s.calls[n]? = some call) (hlen : reply.len = 0) :
    (s.setPhase n old (.replied reply)).Lawful :=
  lawful_setPhase h hcall (Or.inl hlen)

/-- A call ends with a reply after it was answered. -/
theorem lawful_replied (h : s.Lawful) {n conn : Nat} {phase old : CallPhase} {root : Hash}
    {entry : ContentEntry} (answer : Answer) (now : Nat) (reply : SwarmReply)
    (hcall : s.calls[n]? = some ⟨conn, phase⟩) (htimely : Timely s.history conn n root) :
    ((s.log (.answered conn n root entry answer now)).setPhase n old (.replied reply)).Lawful :=
  lawful_setPhase (lawful_answered h entry answer now htimely) hcall
    (Or.inr (answered_log s conn n root entry answer now))

private theorem lawful_parsed (h : s.Lawful) {n conn : Nat} {ctx : ConnCtx p} {ticket : Ticket}
    {now : Nat} (hcall : s.calls[n]? = some ⟨conn, .parsed ticket now⟩)
    (hctx : s.conns[conn]? = some ctx) :
    (s.advanceGrant n conn ctx (.parsed ticket now)).Lawful := by
  simp only [advanceGrant]
  split
  · exact h.refuse hcall rfl
  · next payload hverify =>
    have hlogged : (s.log (.accepted conn s.keys ticket now payload)).Lawful :=
      lawful_log h _ ⟨ctx, hctx, hverify⟩ (by intro _ _ _ _ _ _ hevent; cases hevent)
    split
    · exact hlogged.refuse hcall rfl
    · next root hroot =>
      refine lawful_setPhase hlogged hcall ⟨s.keys, ticket, now, payload, ?_, hroot, rfl⟩
      exact List.mem_append_right _ (List.mem_singleton.mpr rfl)

private theorem lawful_sessionOpen (h : s.Lawful) {n conn : Nat} {ctx : ConnCtx p}
    {payload : TicketPayload} {root : Hash} {entry : ContentEntry}
    (hcall : s.calls[n]? = some ⟨conn, .sessionOpen payload root entry⟩) :
    (s.advanceGrant n conn ctx (.sessionOpen payload root entry)).Lawful := by
  obtain ⟨haccepted, hserves⟩ := h.calls n _ hcall
  simp only [advanceGrant]
  split
  · exact h.refuse hcall rfl
  · generalize hf : (fun ctx : ConnCtx p ↦
      { ctx with grants := upsertRow Prod.fst (root, payload.exp) ctx.grants }) = f
    have hpeer : ∀ ctx, (f ctx).peer = ctx.peer := fun _ ↦ hf ▸ rfl
    have hphase : ∀ ctx, s.conns[conn]? = some ctx → ctx.Settled →
        (f ctx).Settled ∧ (f ctx).reservedSlot = ctx.reservedSlot :=
      fun _ _ hsettled ↦ hf ▸ ⟨hsettled, rfl⟩
    have hupdated : (s.updateConn conn f).Lawful := by
      apply lawful_updateConn h conn f hpeer hphase
      · intro ctx hctx grant hgrant
        rw [← hf] at hgrant
        rcases mem_upsertRow hgrant with hnew | hold
        · rw [hnew]
          exact haccepted
        · exact h.grants conn ctx hctx grant hold
    have hstill : (s.updateConn conn f).Serves conn payload.pri :=
      (grows_updateConn s conn f hpeer hphase).serves hserves
    have hlogged := lawful_log hupdated (.granted conn root payload) hstill
      (by intro _ _ _ _ _ _ hevent; cases hevent)
    exact hlogged.refuse hcall rfl

private theorem lawful_advanceGrant (h : s.Lawful) {n : Nat} {call : Call} {ctx : ConnCtx p}
    (hcall : s.calls[n]? = some call) (hctx : s.conns[call.conn]? = some ctx) :
    (s.advanceGrant n call.conn ctx call.phase).Lawful := by
  obtain ⟨conn, phase⟩ := call
  cases phase with
  | parsed => exact lawful_parsed h hcall hctx
  | verified payload root =>
    simp only [advanceGrant]
    split
    · exact h.refuse hcall rfl
    · split
      · exact h.refuse hcall rfl
      · next hslot =>
        obtain ⟨ctx', hctx', hsettled⟩ := h.served n _ hcall
        have hsame : ctx' = ctx := Option.some.inj (hctx'.symm.trans hctx)
        subst hsame
        refine h.moveOn hcall fun haccepted ↦ ⟨haccepted, ctx', hctx, hsettled, ?_⟩
        intro hpri
        simpa [hpri] using hslot
  | found payload root entry =>
    simp only [advanceGrant]
    have hupdated : (s.updateConn conn fun ctx ↦
        { ctx with session := ctx.session.or (some payload.sid) }).Lawful := by
      apply lawful_updateConn h conn
      · exact fun _ ↦ rfl
      · exact fun _ _ hsettled ↦ ⟨hsettled, rfl⟩
      · exact fun ctx hctx ↦ h.grants conn ctx hctx
    exact hupdated.moveOn hcall fun hbacks ↦ hbacks
  | sessionOpen => exact lawful_sessionOpen h hcall
  | _ => exact h

private theorem len_le_of_pieceOf {size chunk : Nat} {piece : Piece}
    (h : pieceOf size chunk = some piece) : piece.len ≤ chunkSize := by
  unfold pieceOf at h
  split at h
  · cases h
    simp only
    omega
  · cases h

private theorem lawful_serveQuery (h : s.Lawful) {n conn : Nat} {ctx : ConnCtx p} {query : Query}
    {root : Hash} (hcall : s.calls[n]? = some ⟨conn, .timely query root⟩) (entry : ContentEntry) :
    (s.serveQuery n conn ctx query root entry).Lawful := by
  have htimely : Timely s.history conn n root := h.calls n _ hcall
  cases query with
  | held =>
    simp only [serveQuery]
    split
    · exact lawful_replied h _ _ _ hcall htimely
    · exact lawful_replied h _ _ _ hcall htimely
  | get chunk =>
    simp only [serveQuery]
    split
    · exact h.refuse hcall rfl
    · split
      · exact h.refuse hcall rfl
      · next piece hpiece => exact h.moveOn hcall fun hbacks ↦ ⟨hbacks, len_le_of_pieceOf hpiece⟩

private theorem lawful_holding (h : s.Lawful) {n conn : Nat} {ctx : ConnCtx p} {root : Hash}
    {entry : ContentEntry} {piece : Piece} (outcome : Outcome)
    (hcall : s.calls[n]? = some ⟨conn, .holding root entry piece⟩) :
    (s.advanceQuery n conn ctx outcome (.holding root entry piece)).Lawful := by
  simp only [advanceQuery]
  split
  · exact h.refuse hcall rfl
  · next path mtimeMs isFile len time hsource =>
    split
    · exact h.refuse hcall rfl
    · split
      · exact h.refuse hcall rfl
      · split
        · exact h.refuse hcall rfl
        · refine h.moveOn hcall fun hbacks ↦ ⟨hbacks, ?_⟩
          rw [ContentEntry.isComplete, hsource]
  · next path file held hsource =>
    split
    · next hheld =>
      refine h.moveOn hcall fun hbacks ↦ ⟨hbacks, ⟨path, hsource⟩, ?_⟩
      obtain ⟨set, hset, hcontains⟩ := (Option.any_eq_true _ _).mp hheld
      exact ⟨set, hset, hcontains⟩
    · exact h.refuse hcall rfl
  · exact h

private theorem lawful_reading (h : s.Lawful) {n conn : Nat} {ctx : ConnCtx p} {root : Hash}
    {entry : ContentEntry} {held : Nat} {file : ShareFile} {piece : Piece} (outcome : Outcome)
    (hcall : s.calls[n]? = some ⟨conn, .reading root entry file held piece⟩) :
    (s.advanceQuery n conn ctx outcome (.reading root entry file held piece)).Lawful := by
  obtain ⟨htimely, -, -⟩ := h.calls n _ hcall
  simp only [advanceQuery]
  split
  · exact h.refuse hcall rfl
  · next data =>
    split
    · exact h.refuse hcall rfl
    · exact lawful_replied h _ _ _ hcall htimely
  · exact h

private theorem lawful_advanceQuery (h : s.Lawful) {n : Nat} {call : Call} {ctx : ConnCtx p}
    (outcome : Outcome) (hcall : s.calls[n]? = some call)
    (hctx : s.conns[call.conn]? = some ctx) :
    (s.advanceQuery n call.conn ctx outcome call.phase).Lawful := by
  obtain ⟨conn, phase⟩ := call
  cases phase with
  | asked query root =>
    simp only [advanceQuery]
    split
    · exact h.refuse hcall rfl
    · next root' exp hfound =>
      have hgrant := lastRow?_eq_some hfound
      have hroot : root' = root := hgrant.2
      subst hroot
      exact lawful_setPhase h hcall (h.grants conn ctx hctx _ hgrant.1)
  | granted query root exp =>
    have haccepted : Accepted s.history conn root exp := h.calls n _ hcall
    simp only [advanceQuery]
    split
    · exact h.refuse hcall rfl
    · next hexp =>
      have hlogged : (s.log (.timely conn n root exp s.clock)).Lawful :=
        lawful_log h _ trivial (by intro _ _ _ _ _ _ hevent; cases hevent)
      refine lawful_setPhase hlogged hcall ⟨exp, s.clock, ?_, Nat.lt_of_not_le hexp, ?_⟩
      · exact List.mem_append_right _ (List.mem_singleton.mpr rfl)
      · exact Accepted.mono (List.subset_append_left _ _) haccepted
  | timely query root =>
    simp only [advanceQuery]
    split
    · exact h.refuse hcall rfl
    · exact lawful_serveQuery h hcall _
  | located root entry piece =>
    have htaken : ∀ daily, ({ s with daily := daily } : SwarmServer p).Lawful :=
      fun daily ↦ h.of_eq rfl rfl rfl rfl
    simp only [advanceQuery]
    split
    · have hlogged := lawful_log (htaken (s.daily.tryTake s.clock piece.len).1)
        (.admitted (s.daily.tryTake s.clock piece.len).1.day piece.len) trivial
        (by intro _ _ _ _ _ _ hevent; cases hevent)
      exact hlogged.moveOn hcall fun hbacks ↦ hbacks.1
    · exact (htaken _).refuse hcall rfl
  | admitted root entry piece =>
    simp only [advanceQuery]
    split
    · exact h
    · have htaken : ({ s with gets := s.gets - 1 } : SwarmServer p).Lawful :=
        h.of_eq rfl rfl rfl rfl
      exact htaken.moveOn hcall fun hbacks ↦ hbacks
  | holding => exact lawful_holding h outcome hcall
  | pumping root entry piece =>
    obtain ⟨htimely, -⟩ := h.calls n _ hcall
    simp only [advanceQuery]
    split
    · next data complete =>
      cases complete with
      | true => exact lawful_replied h _ _ _ hcall htimely
      | false =>
        have hlogged := lawful_answered h entry (.stored piece.chunk data) s.clock htimely
        exact lawful_setPhase hlogged hcall trivial
    · exact h
  | reading => exact lawful_reading h outcome hcall
  | _ => exact h

/-- A new call that nothing has to be established for. -/
theorem lawful_append (h : s.Lawful) {conn : Nat} {ctx : ConnCtx p}
    (hctx : s.conns[conn]? = some ctx) (hsettled : ctx.Settled) {phase : CallPhase}
    (hphase : ∀ n, s.Backs conn n phase) :
    ({ s with calls := s.calls ++ [⟨conn, phase⟩] } : SwarmServer p).Lawful := by
  have hg : s.Grows { s with calls := s.calls ++ [⟨conn, phase⟩] } := Grows.of_eq rfl rfl rfl
  refine ⟨?_, ?_, h.grants, fun event hevent ↦ hg.allows (h.events event hevent), h.answered⟩
  · intro n call hcall
    rcases getElem?_concat_some hcall with ⟨-, rfl⟩ | hold
    · exact hg.backs (hphase n)
    · exact hg.backs (h.calls n call hold)
  · intro n call hcall
    rcases getElem?_concat_some hcall with ⟨-, rfl⟩ | hold
    · exact ⟨ctx, hctx, hsettled⟩
    · exact h.served n call hold

private theorem lawful_request (h : s.Lawful) (conn : Nat) (request : SwarmRequest) :
    (s.request conn request).Lawful := by
  unfold SwarmServer.request
  split
  · next hctx =>
    apply lawful_append h hctx (fun before hbefore ↦ by cases hbefore)
    intro n
    cases request with
    | grant ticket =>
      simp only
      split
      · exact Or.inl rfl
      · trivial
    | held root =>
      simp only
      split
      · exact Or.inl rfl
      · trivial
    | get root chunk =>
      simp only
      split
      · exact Or.inl rfl
      · trivial
  · exact h

private theorem lawful_advance (h : s.Lawful) (n : Nat) (outcome : Outcome) :
    (s.advance n outcome).Lawful := by
  unfold SwarmServer.advance
  split
  · exact h
  · next call hcall =>
    split
    · exact h
    · next ctx hctx =>
      split
      · exact lawful_advanceGrant h hcall hctx
      · exact lawful_advanceGrant h hcall hctx
      · exact lawful_advanceGrant h hcall hctx
      · exact lawful_advanceGrant h hcall hctx
      · exact lawful_advanceQuery h outcome hcall hctx

/-! ## Connections and sets -/

private theorem lawful_connect (h : s.Lawful) (peer : p.PublicKey) : (s.connect peer).Lawful := by
  have hg : s.Grows (s.connect peer) := by
    refine ⟨List.Subset.refl _, ?_, fun _ _ h ↦ h⟩
    intro conn ctx hctx
    have hlt := (List.getElem?_eq_some_iff.mp hctx).1
    refine ⟨ctx, ?_, rfl, fun hsettled ↦ ⟨hsettled, rfl⟩⟩
    change (s.conns ++ [_])[conn]? = some ctx
    rwa [List.getElem?_append_left hlt]
  apply h.keep hg rfl rfl
  intro conn ctx hctx grant hgrant
  rcases getElem?_concat_some hctx with ⟨-, rfl⟩ | hold
  · cases hgrant
  · exact h.grants conn ctx hold grant hgrant

private theorem lawful_seat (h : s.Lawful) (n : Nat) : (s.seat n).Lawful := by
  unfold SwarmServer.seat
  split
  · next before _ _ _ hctx =>
    -- A counted connection has no calls yet, so its slot may still be chosen.
    have hvacuous : ∀ {f : ConnCtx p → ConnCtx p}, ∀ ctx, s.conns[n]? = some ctx → ctx.Settled →
        (f ctx).Settled ∧ (f ctx).reservedSlot = ctx.reservedSlot := by
      intro f ctx hctx' hsettled
      rw [hctx] at hctx'
      cases hctx'
      exact absurd rfl (hsettled before)
    split
    · have hclosed := lawful_updateConn h n (fun conn ↦ { conn with phase := .closed })
        (fun _ ↦ rfl) hvacuous (fun ctx hctx ↦ h.grants n ctx hctx)
      exact hclosed.of_eq rfl rfl rfl rfl
    · exact lawful_updateConn h n _ (fun _ ↦ rfl) hvacuous (fun ctx hctx ↦ h.grants n ctx hctx)
  · exact h

private theorem lawful_finish (h : s.Lawful) (n : Nat) : (s.finish n).Lawful := by
  unfold SwarmServer.finish
  split
  · have hclosed := lawful_updateConn h n (fun conn ↦ { conn with phase := .closed })
      (fun _ ↦ rfl) (fun _ _ _ ↦ ⟨fun _ hphase ↦ (by cases hphase), rfl⟩)
      (fun ctx hctx ↦ h.grants n ctx hctx)
    exact hclosed.of_eq rfl rfl rfl rfl
  · exact h

/-- The sets of a device only grow. -/
theorem Lawful.of_sets (h : s.Lawful) {sets : List ChunkSet}
    (hsets : ∀ held chunk, s.Holds held chunk → ({ s with sets := sets } : SwarmServer p).Holds held
      chunk) : ({ s with sets := sets } : SwarmServer p).Lawful :=
  h.keep ⟨List.Subset.refl _, fun _ ctx hctx ↦ ⟨ctx, hctx, rfl, fun hsettled ↦ ⟨hsettled, rfl⟩⟩,
    hsets⟩ rfl rfl h.grants

/-- Every step keeps the server lawful. -/
theorem lawful_step (s : SwarmServer p) (op : ServeOp p) (h : s.Lawful) :
    (s.step op).Lawful := by
  cases op with
  | addSet len =>
    apply h.of_sets
    intro held chunk ⟨set, hset, hcontains⟩
    have hlt := (List.getElem?_eq_some_iff.mp hset).1
    exact ⟨set, by rwa [List.getElem?_append_left hlt], hcontains⟩
  | insertChunk n chunk =>
    apply h.of_sets
    intro held chunk' ⟨set, hset, hcontains⟩
    by_cases hsame : n = held
    · subst hsame
      refine ⟨(set.insert chunk).1, ?_, ?_⟩
      · rw [List.getElem?_modify_eq, hset]
        rfl
      · rw [ChunkSet.contains_insert, hcontains, Bool.true_or]
    · exact ⟨set, by rwa [List.getElem?_modify_ne _ _ hsame], hcontains⟩
  | connect peer => exact lawful_connect h peer
  | seat n => exact lawful_seat h n
  | finish n => exact lawful_finish h n
  | request conn request => exact lawful_request h conn request
  | advance n outcome => exact lawful_advance h n outcome
  | abandon n =>
    simp only [SwarmServer.step, SwarmServer.abandon]
    split
    · exact h
    · next call hcall => exact lawful_setPhase h hcall trivial
  | _ => exact h.of_eq rfl rfl rfl rfl

/-- A new server is lawful. -/
theorem lawful_new (clock : Nat) (keys : KeyRing p) (content : ContentRegistry)
    (sets : List ChunkSet) : (SwarmServer.new clock keys content sets).Lawful where
  calls := by intro n call hcall; cases hcall
  served := by intro n call hcall; cases hcall
  grants := by intro conn ctx hctx; cases hctx
  events := by intro event hevent; cases hevent
  answered := by
    intro before conn call root entry answer now after hsplit
    cases before <;> cases hsplit

/-- Every call, grant and event of every run is backed. -/
theorem lawful_run (h : s.Lawful) (ops : List (ServeOp p)) :
    (run SwarmServer.step s ops).Lawful := by
  have hevery : EveryStep SwarmServer.step (fun _ _ ↦ True) s ops :=
    EveryStep.of_forall_mem (fun _ _ _ ↦ trivial) s
  exact run_invariant (fun s op hs _ ↦ lawful_step s op hs) h hevery

end SwarmServer

end Share
