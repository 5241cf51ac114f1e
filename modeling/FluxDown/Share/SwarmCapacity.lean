import FluxDown.Share.SwarmAnswers

/-!
# How much a swarm server gives away

Library `Share`. The slot of a connection is chosen from a count that was taken when it came, while
others come and go; the budget of a day is taken before the data is sent. The invariants
count connections that were not refused yet among those that take any ticket, and compare the bytes
admitted on a day with those the budget has noted.
-/

namespace Share

open Base

variable {p : Primitives}

/-! ## Reserved slots -/

namespace ConnCtx

/-- The connection is counted. -/
def isCounted (ctx : ConnCtx p) : Bool := ctx.phase != .closed

/-- The connection is served and takes tickets without priority. -/
def takesAny (ctx : ConnCtx p) : Bool := ctx.phase == .serving && !ctx.reservedSlot

/-- The connection takes any ticket, or will when it is served, with so many slots for all. -/
def mayTakeAny (slots : Nat) (ctx : ConnCtx p) : Bool :=
  match ctx.phase with
  | .counted before => decide (before < slots)
  | .serving => !ctx.reservedSlot
  | .closed => false

private theorem mayTakeAny_of_takesAny {slots : Nat} {ctx : ConnCtx p} (h : ctx.takesAny = true) :
    ctx.mayTakeAny slots = true := by
  simp only [takesAny, Bool.and_eq_true, beq_iff_eq] at h
  rw [mayTakeAny, h.1]
  exact h.2

private theorem isCounted_of_mayTakeAny {slots : Nat} {ctx : ConnCtx p}
    (h : ctx.mayTakeAny slots = true) : ctx.isCounted = true := by
  rw [isCounted, bne_iff_ne]
  intro hclosed
  rw [mayTakeAny, hclosed] at h
  cases h

end ConnCtx

/-- The counter counts the connections, and no more may take any ticket than there are slots. -/
structure SwarmServer.Seated (n : Nat) (s : SwarmServer p) : Prop where
  reserved : s.priorityReserved = n
  counted : s.connections = s.conns.countP ConnCtx.isCounted
  seats : s.conns.countP (ConnCtx.mayTakeAny (maxConnections - n)) ≤ maxConnections - n

/-- The reservation stays as it is. -/
def SwarmServer.KeepsReservation (n : Nat) (_ : SwarmServer p) : ServeOp p → Prop
  | .setPriorityReserved m => min m maxPriorityReserved = n
  | _ => True

namespace SwarmServer

variable {s t : SwarmServer p}

private theorem SameSeats.seated (h : SameSeats s t) {n : Nat} (hs : s.Seated n) : t.Seated n := by
  have hcount : ∀ q : ConnPhase × Bool → Bool,
      t.conns.countP (fun ctx ↦ q (ctx.phase, ctx.reservedSlot)) =
        s.conns.countP fun ctx ↦ q (ctx.phase, ctx.reservedSlot) := by
    intro q
    have hmap := congrArg (List.countP q) h.slots
    rwa [List.countP_map, List.countP_map] at hmap
  refine ⟨h.reserved.trans hs.reserved, ?_, ?_⟩
  · rw [h.connections, hs.counted]
    exact (hcount fun slot ↦ slot.1 != .closed).symm
  · have hseats : t.conns.countP (ConnCtx.mayTakeAny (maxConnections - n)) =
        s.conns.countP (ConnCtx.mayTakeAny (maxConnections - n)) :=
      hcount fun slot ↦ match slot.1 with
        | .counted before => decide (before < maxConnections - n)
        | .serving => !slot.2
        | .closed => false
    rw [hseats]
    exact hs.seats

/-! ### Connections come and go -/

private theorem seated_connect {n : Nat} (h : s.Seated n) (peer : p.PublicKey) :
    (s.connect peer).Seated n := by
  have hseats := h.seats
  have hle : s.conns.countP (ConnCtx.mayTakeAny (maxConnections - n)) ≤ s.connections := by
    rw [h.counted]
    exact List.countP_mono_left fun ctx _ hctx ↦ ConnCtx.isCounted_of_mayTakeAny hctx
  refine ⟨h.reserved, ?_, ?_⟩
  · have hcount := countP_concat ConnCtx.isCounted s.conns
      ⟨peer, .counted s.connections, [], none, false⟩
    rw [← h.counted] at hcount
    exact hcount.symm
  · have hcount := countP_concat (ConnCtx.mayTakeAny (maxConnections - n)) s.conns
      ⟨peer, .counted s.connections, [], none, false⟩
    rw [connect, hcount]
    -- Only a connection that found a free seat may take any ticket.
    by_cases hfree : s.connections < maxConnections - n
    · have hone := Bool.toNat_le (ConnCtx.mayTakeAny (maxConnections - n)
        (⟨peer, .counted s.connections, [], none, false⟩ : ConnCtx p))
      omega
    · have hnone : ConnCtx.mayTakeAny (maxConnections - n)
          (⟨peer, .counted s.connections, [], none, false⟩ : ConnCtx p) = false :=
        decide_eq_false hfree
      rw [hnone]
      exact hseats

/-- A connection that takes no further seat. -/
theorem seated_modify {n conn connections : Nat} {ctx : ConnCtx p} (h : s.Seated n)
    (hctx : s.conns[conn]? = some ctx) (f : ConnCtx p → ConnCtx p)
    (hcounted : connections + ctx.isCounted.toNat = s.connections + (f ctx).isCounted.toNat)
    (hmay : ((f ctx).mayTakeAny (maxConnections - n)).toNat ≤
      (ctx.mayTakeAny (maxConnections - n)).toNat) :
    ({ s with conns := s.conns.modify conn f, connections := connections } :
      SwarmServer p).Seated n := by
  have hcount := countP_modify (f := f) ConnCtx.isCounted hctx
  have hseats := countP_modify (f := f) (ConnCtx.mayTakeAny (maxConnections - n)) hctx
  have hbound := h.seats
  rw [← h.counted] at hcount
  refine ⟨h.reserved, ?_, ?_⟩
  · change connections = (s.conns.modify conn f).countP ConnCtx.isCounted
    omega
  · change (s.conns.modify conn f).countP (ConnCtx.mayTakeAny (maxConnections - n)) ≤ _
    omega

/-- A connection that ends is counted no more. -/
theorem seated_close {n conn : Nat} {ctx : ConnCtx p} (h : s.Seated n)
    (hctx : s.conns[conn]? = some ctx) (hopen : ctx.isCounted = true) :
    ({ s.updateConn conn fun ctx ↦ { ctx with phase := .closed } with
      connections := s.connections - 1 } : SwarmServer p).Seated n := by
  have hpos : 0 < s.connections := by
    rw [h.counted]
    exact List.countP_pos_iff.mpr ⟨ctx, List.mem_of_getElem? hctx, hopen⟩
  apply seated_modify h hctx fun ctx ↦ { ctx with phase := .closed }
  · have hclosed : ({ ctx with phase := .closed } : ConnCtx p).isCounted = false := rfl
    rw [hopen, hclosed, Bool.toNat_true, Bool.toNat_false]
    omega
  · exact Nat.zero_le _

private theorem seated_seat {n : Nat} (h : s.Seated n) (conn : Nat) :
    (s.seat conn).Seated n := by
  unfold SwarmServer.seat
  split
  · next peer before grants session reservedSlot hctx =>
    split
    · exact seated_close h hctx rfl
    · apply seated_modify h hctx
      · rfl
      · simp only [ConnCtx.mayTakeAny, h.reserved]
        by_cases hfree : before < maxConnections - n
        · rw [decide_eq_false (Nat.not_le.mpr hfree), decide_eq_true hfree]
          exact Nat.le_refl _
        · rw [decide_eq_true (Nat.not_lt.mp hfree)]
          exact Nat.zero_le _
  · exact h

private theorem seated_step {n : Nat} (s : SwarmServer p) (op : ServeOp p) (h : s.Seated n)
    (hkeep : s.KeepsReservation n op) : (s.step op).Seated n := by
  cases op with
  | setPriorityReserved m => exact ⟨hkeep, h.counted, h.seats⟩
  | connect peer => exact seated_connect h peer
  | seat conn => exact seated_seat h conn
  | finish conn =>
    simp only [SwarmServer.step, SwarmServer.finish]
    split
    · next hctx => exact seated_close h hctx rfl
    · exact h
  | request conn request =>
    simp only [SwarmServer.step, SwarmServer.request]
    split
    · exact ⟨h.reserved, h.counted, h.seats⟩
    · exact h
  | advance n outcome => exact (advances_advance s n outcome).seats.seated h
  | abandon n =>
    simp only [SwarmServer.step, SwarmServer.abandon]
    split
    · exact h
    · exact ⟨h.reserved, h.counted, h.seats⟩
  | _ => exact ⟨h.reserved, h.counted, h.seats⟩

/-- With a fixed reservation, no more connections take tickets without priority than there are
slots left. -/
theorem seated_run {n : Nat} (h : s.Seated n) {ops : List (ServeOp p)}
    (hkeep : EveryStep SwarmServer.step (KeepsReservation n) s ops) :
    (run SwarmServer.step s ops).conns.countP ConnCtx.takesAny ≤ maxConnections - n := by
  have hseated := run_invariant (fun s op hs hop ↦ seated_step s op hs hop) h hkeep
  exact Nat.le_trans
    (List.countP_mono_left fun ctx _ hctx ↦ ConnCtx.mayTakeAny_of_takesAny hctx) hseated.seats

end SwarmServer

/-! ## The budget of a day -/

/-- Bytes admitted on a day. -/
def admittedOn (day : Int) (history : List (ServeEvent p)) : Nat :=
  (history.filterMap (ServeEvent.admittedOn day)).sum

private theorem admittedOn_concat (day : Int) (history : List (ServeEvent p))
    (event : ServeEvent p) : admittedOn day (history ++ [event]) =
      admittedOn day history + (event.admittedOn day).getD 0 := by
  unfold admittedOn
  rw [List.filterMap_append, List.sum_append]
  cases hevent : event.admittedOn day with
  | none => simp [hevent]
  | some len => simp [hevent]

namespace DailyBudget

private theorem clampI64_mono {a b : Int} (h : a ≤ b) : clampI64 a ≤ clampI64 b := by
  unfold clampI64
  omega

/-- The day does not go back while the clock does not. -/
theorem dayOf_mono (budget : DailyBudget) {now now' : Nat} (h : now ≤ now') :
    budget.dayOf now ≤ budget.dayOf now' := by
  apply Int.ediv_le_ediv (by decide)
  apply clampI64_mono
  omega

/-- A new day does not change the day of a clock. -/
@[simp] theorem dayOf_roll (budget : DailyBudget) (now now' : Nat) :
    (budget.roll now).dayOf now' = budget.dayOf now' := by
  unfold roll
  split <;> rfl

private theorem day_roll (budget : DailyBudget) (now : Nat) :
    (budget.roll now).day = budget.dayOf now := by
  unfold roll
  split
  · next h => exact h.symm
  · rfl

/-- A new day keeps the cap. -/
theorem cap_roll (budget : DailyBudget) (now : Nat) : (budget.roll now).cap = budget.cap := by
  unfold roll
  split <;> rfl

/-- A new day keeps the offset. -/
theorem offsetSecs_roll (budget : DailyBudget) (now : Nat) :
    (budget.roll now).offsetSecs = budget.offsetSecs := by
  unfold roll
  split <;> rfl

/-- What the budget has noted for a day. -/
def noted (budget : DailyBudget) (day : Int) : Nat := if budget.day = day then budget.used else 0

private theorem used_roll (budget : DailyBudget) (now : Nat) :
    (budget.roll now).used = budget.noted (budget.dayOf now) := by
  unfold roll noted
  by_cases hday : budget.dayOf now = budget.day
  · rw [if_pos hday, if_pos hday.symm]
  · rw [if_neg hday, if_neg (Ne.symm hday)]

private theorem noted_roll (budget : DailyBudget) (now : Nat) :
    (budget.roll now).noted (budget.dayOf now) = budget.noted (budget.dayOf now) := by
  rw [noted, day_roll, if_pos rfl, used_roll]

end DailyBudget

/-- The budget has noted what was admitted today, and no day had more than the cap and a
chunk. -/
structure SwarmServer.Rationed (cap : Nat) (offset : Int) (s : SwarmServer p) : Prop where
  offset : s.daily.offsetSecs = offset
  positive : 0 < s.daily.cap
  capped : s.daily.cap ≤ cap
  noted : min (admittedOn (s.daily.dayOf s.clock) s.history) maxU64 ≤
    s.daily.noted (s.daily.dayOf s.clock)
  /-- Nothing was admitted on a day to come. -/
  future : ∀ day, s.daily.dayOf s.clock < day → admittedOn day s.history = 0
  bounded : ∀ day, admittedOn day s.history ≤ cap + chunkSize

/-- The offset stays as it is, there is a cap of at most so many bytes, and the clock does not go
back. -/
def SwarmServer.KeepsBudget (cap : Nat) (offset : Int) (s : SwarmServer p) : ServeOp p → Prop
  | .setDailyCap cap' offset' => 0 < cap' ∧ cap' ≤ cap ∧ offset' = offset
  | .setClock now => s.clock ≤ now
  | _ => True

namespace SwarmServer

variable {s t : SwarmServer p} {cap : Nat} {offset : Int}

/-- The budget is rolled, and perhaps more is noted. -/
theorem Rationed.daily (h : s.Rationed cap offset) {daily : DailyBudget}
    (hoffset : daily.offsetSecs = s.daily.offsetSecs) (hpositive : 0 < daily.cap)
    (hcapped : daily.cap ≤ cap)
    (hnoted : s.daily.noted (s.daily.dayOf s.clock) ≤ daily.noted (s.daily.dayOf s.clock)) :
    ({ s with daily := daily } : SwarmServer p).Rationed cap offset := by
  have hday : daily.dayOf s.clock = s.daily.dayOf s.clock := by
    unfold DailyBudget.dayOf
    rw [hoffset]
  refine ⟨hoffset.trans h.offset, hpositive, hcapped, ?_, ?_, h.bounded⟩
  · change min (admittedOn (daily.dayOf s.clock) s.history) maxU64 ≤
      daily.noted (daily.dayOf s.clock)
    rw [hday]
    exact Nat.le_trans h.noted hnoted
  · change ∀ day, daily.dayOf s.clock < day → admittedOn day s.history = 0
    rw [hday]
    exact h.future

private theorem Rationed.roll (h : s.Rationed cap offset) :
    ({ s with daily := s.daily.roll s.clock } : SwarmServer p).Rationed cap offset := by
  apply h.daily
  · exact s.daily.offsetSecs_roll s.clock
  · rw [DailyBudget.cap_roll]
    exact h.positive
  · rw [DailyBudget.cap_roll]
    exact h.capped
  · exact Nat.le_of_eq (s.daily.noted_roll s.clock).symm

/-- Parts of a step that take nothing from the budget. -/
private structure SameBudget (s t : SwarmServer p) : Prop where
  clock : t.clock = s.clock
  daily : t.daily = s.daily
  admitted : ∀ day, admittedOn day t.history = admittedOn day s.history

private theorem SameBudget.refl (s : SwarmServer p) : SameBudget s s := ⟨rfl, rfl, fun _ ↦ rfl⟩

private theorem Rationed.of_same (h : s.Rationed cap offset) (hsame : SameBudget s t) :
    t.Rationed cap offset := by
  obtain ⟨hclock, hdaily, hadmitted⟩ := hsame
  refine ⟨?_, ?_, ?_, ?_, ?_, ?_⟩
  · rw [hdaily]
    exact h.offset
  · rw [hdaily]
    exact h.positive
  · rw [hdaily]
    exact h.capped
  · rw [hclock, hdaily, hadmitted]
    exact h.noted
  · intro day hday
    rw [hclock, hdaily] at hday
    rw [hadmitted]
    exact h.future day hday
  · intro day
    rw [hadmitted]
    exact h.bounded day

private theorem sameBudget_log (s : SwarmServer p) (event : ServeEvent p)
    (hevent : ∀ day, event.admittedOn day = none) : SameBudget s (s.log event) := by
  refine ⟨rfl, rfl, fun day ↦ ?_⟩
  change admittedOn day (s.history ++ [event]) = _
  rw [admittedOn_concat, hevent day]
  rfl

/-- Bytes are taken from the budget of today. -/
theorem rationed_tryTake (h : s.Rationed cap offset) (hcap : cap ≤ maxU64) {len : Nat}
    (hlen : len ≤ chunkSize) (htaken : (s.daily.tryTake s.clock len).2 = true) :
    ({ s with daily := (s.daily.tryTake s.clock len).1 }.log
      (.admitted (s.daily.tryTake s.clock len).1.day len)).Rationed cap offset := by
  have hroll := h.roll
  generalize hrolled : s.daily.roll s.clock = rolled at hroll
  have hday : rolled.day = rolled.dayOf s.clock := by
    rw [← hrolled, DailyBudget.day_roll, DailyBudget.dayOf_roll]
  unfold DailyBudget.tryTake at htaken ⊢
  simp only [hrolled] at htaken ⊢
  split at htaken
  · cases htaken
  · next hroom =>
    rw [if_neg hroom]
    have hpositive : 0 < rolled.cap := hroll.positive
    have hcapped : rolled.cap ≤ cap := hroll.capped
    have hused : rolled.used < rolled.cap := by omega
    -- What was admitted today is below the cap, so the budget has noted all of it.
    have hnoted : admittedOn rolled.day s.history ≤ rolled.used := by
      have hmin := hroll.noted
      change min (admittedOn (rolled.dayOf s.clock) s.history) maxU64 ≤
        rolled.noted (rolled.dayOf s.clock) at hmin
      rw [← hday, DailyBudget.noted, if_pos rfl] at hmin
      omega
    have hadmitted : ∀ day, admittedOn day (s.history ++ [.admitted rolled.day len]) =
        admittedOn day s.history + if rolled.day = day then len else 0 := by
      intro day
      rw [admittedOn_concat]
      simp only [ServeEvent.admittedOn]
      split <;> rfl
    refine ⟨hroll.offset, hpositive, hcapped, ?_, ?_, ?_⟩
    · change min (admittedOn (rolled.dayOf s.clock) (s.history ++ [.admitted rolled.day len]))
        maxU64 ≤ if rolled.day = rolled.dayOf s.clock then min (rolled.used + len) maxU64 else 0
      rw [← hday, hadmitted, if_pos rfl, if_pos rfl]
      omega
    · intro day hlater
      change rolled.dayOf s.clock < day at hlater
      change admittedOn day (s.history ++ [.admitted rolled.day len]) = 0
      rw [hadmitted, if_neg (by omega), Nat.add_zero]
      exact hroll.future day hlater
    · intro day
      change admittedOn day (s.history ++ [.admitted rolled.day len]) ≤ cap + chunkSize
      rw [hadmitted]
      split
      · next hsame =>
        rw [← hsame]
        omega
      · exact hroll.bounded day

private theorem rationed_advance (h : s.Rationed cap offset) (hcap : cap ≤ maxU64)
    (hlawful : s.Lawful) (n : Nat) (outcome : Outcome) :
    (s.advance n outcome).Rationed cap offset := by
  have hadvances := advances_advance s n outcome
  have heffect := hadvances.effect
  -- Only the part of the step that concerns the budget matters.
  suffices hpart : ({ s with
      daily := (s.advance n outcome).daily
      history := (s.advance n outcome).history } : SwarmServer p).Rationed cap offset from
    hpart.of_same ⟨hadvances.clock, rfl, fun _ ↦ rfl⟩
  generalize (s.advance n outcome).daily = daily at heffect
  generalize (s.advance n outcome).history = history at heffect
  cases heffect with
  | silent => exact h
  | noted event hquiet => exact h.of_same (sameBudget_log s event hquiet)
  | answered call root entry answer now =>
    exact h.of_same (sameBudget_log s _ fun _ ↦ rfl)
  | taken call root entry piece hcall hphase htaken =>
    have hbacks := hlawful.calls n call hcall
    rw [hphase] at hbacks
    exact rationed_tryTake h hcap hbacks.2 htaken
  | refused => exact h.roll

private theorem rationed_step (hcap : cap ≤ maxU64) (s : SwarmServer p) (op : ServeOp p)
    (h : s.Rationed cap offset ∧ s.Lawful) (hkeep : s.KeepsBudget cap offset op) :
    (s.step op).Rationed cap offset := by
  obtain ⟨h, hlawful⟩ := h
  cases op with
  | setClock now =>
    have hday := s.daily.dayOf_mono hkeep
    refine ⟨h.offset, h.positive, h.capped, ?_, ?_, h.bounded⟩
    · change min (admittedOn (s.daily.dayOf now) s.history) maxU64 ≤ _
      rcases Int.lt_or_eq_of_le hday with hlater | hsame
      · rw [h.future _ hlater]
        exact Nat.zero_le _
      · change _ ≤ s.daily.noted (s.daily.dayOf now)
        rw [← hsame]
        exact h.noted
    · exact fun day hlater ↦ h.future day (Int.lt_of_le_of_lt hday hlater)
  | setDailyCap cap' offset' =>
    obtain ⟨hpositive, hcapped, hoffset⟩ := hkeep
    have hsame : offset' = s.daily.offsetSecs := hoffset.trans h.offset.symm
    subst hsame hoffset
    have hset : ({ s with daily := { s.daily with cap := cap', offsetSecs := s.daily.offsetSecs } } :
        SwarmServer p).Rationed cap s.daily.offsetSecs :=
      h.daily rfl hpositive hcapped (Nat.le_refl _)
    exact hset.roll
  | dailyUsage => exact h.roll
  | restoreDaily day used =>
    simp only [SwarmServer.step, SwarmServer.restoreDaily]
    split
    · next hday =>
      have hroll := h.roll
      refine Rationed.daily hroll rfl hroll.positive hroll.capped ?_
      -- Only more can be noted for the day.
      unfold DailyBudget.noted
      simp only
      split
      · exact Nat.le_max_left _ _
      · exact Nat.le_refl _
    · exact h.roll
  | seat conn =>
    simp only [SwarmServer.step, SwarmServer.seat]
    split
    · split <;> exact h.of_same ⟨rfl, rfl, fun _ ↦ rfl⟩
    · exact h
  | finish conn =>
    simp only [SwarmServer.step, SwarmServer.finish]
    split
    · exact h.of_same ⟨rfl, rfl, fun _ ↦ rfl⟩
    · exact h
  | request conn request =>
    simp only [SwarmServer.step, SwarmServer.request]
    split
    · exact h.of_same ⟨rfl, rfl, fun _ ↦ rfl⟩
    · exact h
  | abandon n =>
    simp only [SwarmServer.step, SwarmServer.abandon]
    split
    · exact h
    · exact h.of_same ⟨rfl, rfl, fun _ ↦ rfl⟩
  | advance n outcome => exact rationed_advance h hcap hlawful n outcome
  | _ => exact h.of_same ⟨rfl, rfl, fun _ ↦ rfl⟩

/-- With a fixed offset, a cap and a clock that does not go back, a day has at most the cap and a
chunk. -/
theorem rationed_run (hcap : cap ≤ maxU64) (h : s.Rationed cap offset) (hlawful : s.Lawful)
    {ops : List (ServeOp p)}
    (hkeep : EveryStep SwarmServer.step (KeepsBudget cap offset) s ops) (day : Int) :
    admittedOn day (run SwarmServer.step s ops).history ≤ cap + chunkSize := by
  have hstep : ∀ (s : SwarmServer p) (op : ServeOp p), s.Rationed cap offset ∧ s.Lawful →
      s.KeepsBudget cap offset op → (s.step op).Rationed cap offset ∧ (s.step op).Lawful :=
    fun s op hs hop ↦ ⟨rationed_step hcap s op hs hop, lawful_step s op hs.2⟩
  exact (run_invariant hstep ⟨h, hlawful⟩ hkeep).1.bounded day

end SwarmServer

end Share
