import FluxDown.Base.Run
import FluxDown.Base.Saturating

/-!
# The token bucket

Library `Engine`. All segments take their bytes from one bucket. A task adds tokens for the time
that has passed, up to a cap; a consumer takes what it finds, or waits. Both change the counter
by compare and swap, so each step here is one access to it. Times are in nanoseconds, tokens are
bytes, and a multiplication of the code that leaves 64 bits wraps.
-/

namespace Engine.SpeedLimiter

open Base

/-- `src/native/engine/src/speed_limiter.rs:43`. -/
def refillIntervalMs : Nat := 50

/-- `speed_limiter.rs:48`. -/
def capDurationMs : Nat := 250

/-- The low 64 bits. -/
def wrap64 (n : Nat) : Nat := n % 2 ^ 64

/-- Tokens for the time since the last refill (`speed_limiter.rs:184–188`). -/
def refillAmount (limit elapsedNs : Nat) : Nat :=
  let elapsedUs := wrap64 (elapsedNs / 1000)
  wrap64 (limit * elapsedUs / 1000000)

/-- The most tokens after a refill (`speed_limiter.rs:208–211`). -/
def cap (limit : Nat) : Nat :=
  let nominalTick := wrap64 (limit * refillIntervalMs) / 1000
  max (max (wrap64 (limit * capDurationMs) / 1000) (nominalTick * 2)) 1

/-- Where the refill task stands. -/
inductive RefillPhase where
  /-- Before the next tick. -/
  | waiting
  /-- At the head of the loop that adds tokens. -/
  | adding (refill cap : Nat)
  /-- About to swap the counter. -/
  | swapping (refill cap current newVal : Nat)
  /-- Asleep while there is no limit. -/
  | idle
deriving DecidableEq

/-- Tokens that the task is still to add. -/
def RefillPhase.pending : RefillPhase → Nat
  | waiting | idle => 0
  | adding refill _ | swapping refill _ _ _ => refill

/-- Where a call of `consume` stands. -/
inductive ConsumePhase where
  /-- At the head of the loop. -/
  | looping (requested : Nat)
  /-- There is a limit. -/
  | limited (requested : Nat)
  /-- About to swap the counter. -/
  | swapping (requested available : Nat)
  /-- Waiting for a refill. -/
  | waiting (requested : Nat)
deriving DecidableEq

/-- The limiter with its tasks. `added`, `clamped`, `granted` and `ticks` are kept for
statements: tokens added, tokens cut off at the cap, bytes that were paid for, and the times that
the ticks under a limit have read. -/
structure Limiter where
  limitBps : Nat
  tokens : Nat
  throttleWaits : Nat
  clock : Nat
  lastRefill : Nat
  refill : RefillPhase
  consumers : Nat → Option ConsumePhase
  added : Nat
  clamped : Nat
  granted : Nat
  ticks : List Nat

/-- What happens next. A swap may fail although the counter is as expected. -/
inductive LimiterOp where
  | advance (ns : Nat)
  | setLimit (limitBps : Nat)
  | tick
  | refill (spurious : Bool)
  | wake
  | consume (caller requested : Nat)
  | proceed (caller : Nat) (spurious : Bool)
deriving DecidableEq

namespace Limiter

/-- A limiter whose refill task has read its first time (`speed_limiter.rs:53–63, 149–153`). -/
def new (limitBps clock : Nat) : Limiter :=
  ⟨limitBps, 0, 0, clock, clock, .waiting, fun _ ↦ none, 0, 0, 0, []⟩

/-- A tick of the refill task (`speed_limiter.rs:155–211`). -/
def tick (s : Limiter) : Limiter :=
  if s.limitBps = 0 then { s with tokens := 0, refill := .idle }
  else
    let refill := refillAmount s.limitBps (s.clock - s.lastRefill)
    if refill = 0 then { s with ticks := s.ticks ++ [s.clock] }
    else
      { s with
        lastRefill := s.clock
        refill := .adding refill (cap s.limitBps)
        ticks := s.ticks ++ [s.clock] }

/-- The refill task adds its tokens (`speed_limiter.rs:216–235`). -/
def advanceRefill (s : Limiter) (spurious : Bool) : Limiter :=
  match s.refill with
  | .adding refill cap =>
    let newVal := min (min (s.tokens + refill) maxU64) cap
    if newVal = s.tokens then { s with refill := .waiting, clamped := s.clamped + refill }
    else { s with refill := .swapping refill cap s.tokens newVal }
  | .swapping refill cap current newVal =>
    if s.tokens = current ∧ spurious = false then
      { s with
        tokens := newVal
        refill := .waiting
        added := s.added + (newVal - current)
        clamped := s.clamped + (refill - (newVal - current)) }
    else { s with refill := .adding refill cap }
  | .waiting | .idle => s

/-- The refill task wakes without a limit (`speed_limiter.rs:173–179`). -/
def wake (s : Limiter) : Limiter :=
  match s.refill with
  | .idle => { s with refill := .waiting, lastRefill := s.clock }
  | _ => s

/-- A call asks for bytes (`speed_limiter.rs:97–100`). -/
def consume (s : Limiter) (caller requested : Nat) : Limiter :=
  if requested = 0 ∨ (s.consumers caller).isSome then s
  else { s with consumers := Function.update s.consumers caller (some (.looping requested)) }

/-- Move a call on, or end it. -/
def setCaller (s : Limiter) (caller : Nat) (phase : Option ConsumePhase) : Limiter :=
  { s with consumers := Function.update s.consumers caller phase }

/-- A call goes on (`speed_limiter.rs:102–141`). -/
def proceed (s : Limiter) (caller : Nat) (spurious : Bool) : Limiter :=
  match s.consumers caller with
  | none => s
  | some (.looping requested) =>
    if s.limitBps = 0 then s.setCaller caller none
    else s.setCaller caller (some (.limited requested))
  | some (.limited requested) =>
    if 0 < s.tokens then s.setCaller caller (some (.swapping requested s.tokens))
    else { s.setCaller caller (some (.waiting requested)) with throttleWaits := s.throttleWaits + 1 }
  | some (.swapping requested available) =>
    let take := min requested available
    if s.tokens = available ∧ spurious = false then
      { s.setCaller caller none with tokens := available - take, granted := s.granted + take }
    else s.setCaller caller (some (.looping requested))
  | some (.waiting requested) => s.setCaller caller (some (.looping requested))

/-- One step. -/
def step (s : Limiter) : LimiterOp → Limiter
  | .advance ns => { s with clock := s.clock + ns }
  | .setLimit limitBps => { s with limitBps }
  | .tick => if s.refill = .waiting then s.tick else s
  | .refill spurious => s.advanceRefill spurious
  | .wake => s.wake
  | .consume caller requested => s.consume caller requested
  | .proceed caller spurious => s.proceed caller spurious

end Limiter

/-! ## What the ticks are worth

Times are weighed in billionths of a token, so a nanosecond weighs `limit`. -/

section Pace

variable (limit : Nat)

/-- Whole tokens of the whole microseconds of a time. -/
def worth (elapsedNs : Nat) : Nat := limit * (elapsedNs / 1000) / 1000000

/-- What a time weighs beside its whole tokens. -/
def remainder (elapsedNs : Nat) : Nat :=
  limit * (elapsedNs / 1000) % 1000000 * 1000 + limit * (elapsedNs % 1000)

/-- A time has less than `2 ^ 64` microseconds and is worth less than `2 ^ 64` tokens. -/
def Fits (elapsedNs : Nat) : Prop := elapsedNs / 1000 < 2 ^ 64 ∧ worth limit elapsedNs < 2 ^ 64

instance (elapsedNs : Nat) : Decidable (Fits limit elapsedNs) :=
  inferInstanceAs (Decidable (_ ∧ _))

/-- The last tick that added tokens, and the weight that such ticks have dropped. -/
structure Pace where
  last : Nat
  dropped : Nat
deriving DecidableEq

/-- A tick that is worth a token drops what its time weighs beside its whole tokens. -/
def Pace.tick (pace : Pace) (time : Nat) : Pace :=
  if worth limit (time - pace.last) = 0 then pace
  else ⟨time, pace.dropped + remainder limit (time - pace.last)⟩

/-- The time of the last tick. -/
def lastTick (start : Nat) (ticks : List Nat) : Nat := ticks.getLast?.getD start

/-- No tick is worth `2 ^ 64` tokens, and what the ticks that added tokens have dropped weighs,
with the time since the last of them, at most one token. -/
def KeepsPace (start : Nat) (ticks : List Nat) : Prop :=
  EveryStep (Pace.tick limit) (fun pace time ↦ Fits limit (time - pace.last)) ⟨start, 0⟩ ticks ∧
    let pace := run (Pace.tick limit) ⟨start, 0⟩ ticks
    pace.dropped + limit * (lastTick start ticks - pace.last) ≤ 10 ^ 9

instance (start : Nat) (ticks : List Nat) : Decidable (KeepsPace limit start ticks) :=
  inferInstanceAs (Decidable (_ ∧ _))

private theorem worth_add_remainder (elapsedNs : Nat) :
    10 ^ 9 * worth limit elapsedNs + remainder limit elapsedNs = limit * elapsedNs := by
  have htokens := Nat.div_add_mod (limit * (elapsedNs / 1000)) 1000000
  have hmicros := Nat.div_add_mod elapsedNs 1000
  calc 10 ^ 9 * worth limit elapsedNs + remainder limit elapsedNs
      = limit * (elapsedNs / 1000) * 1000 + limit * (elapsedNs % 1000) := by
        unfold worth remainder
        omega
    _ = limit * (1000 * (elapsedNs / 1000) + elapsedNs % 1000) := by
        rw [Nat.mul_add, Nat.mul_assoc, Nat.mul_comm (elapsedNs / 1000) 1000]
    _ = limit * elapsedNs := by rw [hmicros]

private theorem refillAmount_of_fits {elapsedNs : Nat} (h : Fits limit elapsedNs) :
    refillAmount limit elapsedNs = worth limit elapsedNs := by
  unfold refillAmount wrap64
  rw [Nat.mod_eq_of_lt h.1]
  exact Nat.mod_eq_of_lt h.2

private theorem refillAmount_le (elapsedNs : Nat) :
    refillAmount limit elapsedNs ≤ worth limit elapsedNs := by
  refine Nat.le_trans (Nat.mod_le _ _) ?_
  exact Nat.div_le_div_right (Nat.mul_le_mul_left limit (Nat.mod_le _ _))

/-- A refill never weighs more than its time. -/
theorem refillAmount_weight (elapsedNs : Nat) :
    10 ^ 9 * refillAmount limit elapsedNs ≤ limit * elapsedNs := by
  have hle := refillAmount_le limit elapsedNs
  have heq := worth_add_remainder limit elapsedNs
  omega

/-- A time that does not fit loses more than a token when it is cut to 64 bits. -/
theorem lost_of_not_fits (hlimit : 0 < limit) {elapsedNs : Nat} (h : ¬ Fits limit elapsedNs) :
    10 ^ 9 * refillAmount limit elapsedNs + 10 ^ 9 < limit * elapsedNs := by
  have heq := worth_add_remainder limit elapsedNs
  by_cases hmicros : elapsedNs / 1000 < 2 ^ 64
  · have hworth : 2 ^ 64 ≤ worth limit elapsedNs := by
      by_contra hlt
      exact h ⟨hmicros, Nat.not_le.mp hlt⟩
    have hwrap : refillAmount limit elapsedNs = worth limit elapsedNs % 2 ^ 64 := by
      unfold refillAmount
      rw [wrap64, wrap64, Nat.mod_eq_of_lt hmicros]
      rfl
    omega
  · -- The microseconds lose a multiple of `2 ^ 64` before they are multiplied.
    have hcut : wrap64 (elapsedNs / 1000) + 2 ^ 64 ≤ elapsedNs / 1000 := by
      unfold wrap64
      omega
    have hmul : limit * wrap64 (elapsedNs / 1000) + limit * 2 ^ 64 ≤ limit * (elapsedNs / 1000) := by
      rw [← Nat.mul_add]
      exact Nat.mul_le_mul_left limit hcut
    have hone : 2 ^ 64 ≤ limit * 2 ^ 64 := Nat.le_mul_of_pos_left _ hlimit
    have hrefill : refillAmount limit elapsedNs ≤ limit * wrap64 (elapsedNs / 1000) / 1000000 :=
      Nat.mod_le _ _
    have htokens := Nat.div_add_mod (limit * (elapsedNs / 1000)) 1000000
    have hworth : worth limit elapsedNs = limit * (elapsedNs / 1000) / 1000000 := rfl
    omega

private theorem not_fits_mono {elapsedNs later : Nat} (hle : elapsedNs ≤ later)
    (h : ¬ Fits limit elapsedNs) : ¬ Fits limit later := by
  intro hfits
  have hmicros : elapsedNs / 1000 ≤ later / 1000 := Nat.div_le_div_right hle
  have hworth : worth limit elapsedNs ≤ worth limit later :=
    Nat.div_le_div_right (Nat.mul_le_mul_left limit hmicros)
  exact h ⟨Nat.lt_of_le_of_lt hmicros hfits.1, Nat.lt_of_le_of_lt hworth hfits.2⟩

/-- A tick as the code takes it. -/
def Pace.tickCode (pace : Pace) (time : Nat) : Pace :=
  let elapsed := time - pace.last
  if refillAmount limit elapsed = 0 then pace
  else ⟨time, pace.dropped + (limit * elapsed - 10 ^ 9 * refillAmount limit elapsed)⟩

private theorem tickCode_of_fits {pace : Pace} {time : Nat} (h : Fits limit (time - pace.last)) :
    pace.tickCode limit time = pace.tick limit time := by
  have heq := worth_add_remainder limit (time - pace.last)
  have hdropped : limit * (time - pace.last) - 10 ^ 9 * worth limit (time - pace.last) =
      remainder limit (time - pace.last) := by omega
  simp only [Pace.tickCode, Pace.tick, refillAmount_of_fits limit h, hdropped]

/-- What is missing at the last tick, as the code takes the ticks. -/
def missing (pace : Pace) (time : Nat) : Nat := pace.dropped + limit * (time - pace.last)

private theorem lastTick_cons (start time : Nat) (ticks : List Nat) :
    lastTick start (time :: ticks) = lastTick time ticks := by
  unfold lastTick
  cases ticks with
  | nil => rfl
  | cons t ts => rw [List.getLast?_cons_cons, List.getLast?_cons, Option.getD_some, Option.getD_some]

private theorem last_tickCode_le {pace : Pace} {now time : Nat} (hlast : pace.last ≤ now)
    (htime : now ≤ time) : (pace.tickCode limit time).last ≤ time := by
  unfold Pace.tickCode
  dsimp only
  split
  · exact Nat.le_trans hlast htime
  · exact Nat.le_refl _

/-- Ticks that add tokens come no later than the last one. -/
theorem last_run_le :
    ∀ {ticks : List Nat} {pace : Pace} {now : Nat}, (now :: ticks).Pairwise (· ≤ ·) →
      pace.last ≤ now → (run (Pace.tickCode limit) pace ticks).last ≤ lastTick now ticks
  | [], _, _, _, hlast => hlast
  | time :: ticks, _, _, hsorted, hlast => by
    rw [run_cons, lastTick_cons]
    obtain ⟨hle, hrest⟩ := List.pairwise_cons.mp hsorted
    exact last_run_le hrest (last_tickCode_le limit hlast (hle time List.mem_cons_self))

/-- More than a token is missing, now or when the time since the last refill is counted. -/
private def Behind (pace : Pace) (now : Nat) : Prop :=
  10 ^ 9 < pace.dropped ∨ ¬ Fits limit (now - pace.last)

private theorem behind_tickCode (hlimit : 0 < limit) {pace : Pace} {now time : Nat}
    (htime : now ≤ time) (h : Behind limit pace now) :
    Behind limit (pace.tickCode limit time) time := by
  have hlost : ¬ Fits limit (now - pace.last) → ¬ Fits limit (time - pace.last) :=
    not_fits_mono limit (Nat.sub_le_sub_right htime _)
  unfold Pace.tickCode
  dsimp only
  split
  · exact h.imp_right hlost
  · left
    rcases h with hdropped | hfits
    · exact Nat.lt_of_lt_of_le hdropped (Nat.le_add_right _ _)
    · have := lost_of_not_fits limit hlimit (hlost hfits)
      change 10 ^ 9 < pace.dropped + _
      omega

/-- What is lost is never made up for. -/
theorem missing_of_behind (hlimit : 0 < limit) :
    ∀ {ticks : List Nat} {pace : Pace} {now : Nat}, (now :: ticks).Pairwise (· ≤ ·) →
      Behind limit pace now →
        10 ^ 9 < missing limit (run (Pace.tickCode limit) pace ticks) (lastTick now ticks)
  | [], pace, now, _, h => by
    change 10 ^ 9 < pace.dropped + limit * (now - pace.last)
    rcases h with hdropped | hfits
    · exact Nat.lt_of_lt_of_le hdropped (Nat.le_add_right _ _)
    · have := lost_of_not_fits limit hlimit hfits
      omega
  | time :: ticks, pace, now, hsorted, h => by
    rw [run_cons, lastTick_cons]
    obtain ⟨hle, hrest⟩ := List.pairwise_cons.mp hsorted
    exact missing_of_behind hlimit hrest
      (behind_tickCode limit hlimit (hle time List.mem_cons_self) h)

private theorem missing_iff (hlimit : 0 < limit) :
    ∀ {ticks : List Nat} (pace : Pace) {now : Nat}, (now :: ticks).Pairwise (· ≤ ·) →
      (missing limit (run (Pace.tickCode limit) pace ticks) (lastTick now ticks) ≤ 10 ^ 9 ↔
        EveryStep (Pace.tick limit) (fun pace time ↦ Fits limit (time - pace.last)) pace ticks ∧
          missing limit (run (Pace.tick limit) pace ticks) (lastTick now ticks) ≤ 10 ^ 9)
  | [], pace, now, _ => by simp [EveryStep]
  | time :: ticks, pace, now, hsorted => by
    rw [run_cons, run_cons, lastTick_cons]
    have hrest := (List.pairwise_cons.mp hsorted).2
    by_cases hfits : Fits limit (time - pace.last)
    · rw [tickCode_of_fits limit hfits, missing_iff hlimit _ hrest]
      simp only [EveryStep, hfits, true_and]
    · have hbehind : Behind limit (pace.tickCode limit time) time := by
        unfold Pace.tickCode
        dsimp only
        split
        · exact Or.inr hfits
        · left
          have := lost_of_not_fits limit hlimit hfits
          change 10 ^ 9 < pace.dropped + _
          omega
      have hmissing := missing_of_behind limit hlimit hrest hbehind
      constructor
      · exact fun hle ↦ absurd hmissing (Nat.not_lt.mpr hle)
      · exact fun h ↦ absurd h.1.1 hfits

end Pace

/-! ## Runs under a fixed limit -/

namespace Limiter

variable {limit start : Nat}

private theorem cap_le_maxU64 (limit : Nat) : cap limit ≤ maxU64 := by
  unfold cap wrap64 maxU64 refillIntervalMs capDurationMs
  dsimp only
  omega

/-- What the refill task has computed for its next swap. -/
private def PhaseOk (limit : Nat) : RefillPhase → Prop
  | .waiting => True
  | .adding _ capacity => capacity = cap limit
  | .swapping refill capacity current newVal =>
    capacity = cap limit ∧ newVal = min (min (current + refill) maxU64) capacity
  | .idle => False

/-- Tokens are neither lost nor made, and the time of the ticks is accounted for. -/
private structure Sound (limit start : Nat) (s : Limiter) : Prop where
  limited : s.limitBps = limit
  conserved : s.granted + s.tokens = s.added
  capped : s.tokens ≤ cap limit
  phase : PhaseOk limit s.refill
  sorted : (start :: s.ticks).Pairwise (· ≤ ·)
  read : ∀ time ∈ start :: s.ticks, time ≤ s.clock
  last : s.lastRefill = (run (Pace.tickCode limit) ⟨start, 0⟩ s.ticks).last
  since : start ≤ s.lastRefill ∧ s.lastRefill ≤ s.clock
  weighed : 10 ^ 9 * (s.added + s.clamped + s.refill.pending) +
      (run (Pace.tickCode limit) ⟨start, 0⟩ s.ticks).dropped = limit * (s.lastRefill - start)

private theorem sound_new (limit start : Nat) : Sound limit start (new limit start) where
  limited := rfl
  conserved := rfl
  capped := Nat.zero_le _
  phase := trivial
  sorted := List.pairwise_singleton _ _
  read time htime := by rw [List.mem_singleton.mp htime]; exact Nat.le_refl _
  last := rfl
  since := ⟨Nat.le_refl _, Nat.le_refl _⟩
  weighed := by simp [new, RefillPhase.pending]

private theorem sound_advance {s : Limiter} (h : Sound limit start s) (ns : Nat) :
    Sound limit start { s with clock := s.clock + ns } :=
  { h with
    read := fun time htime ↦ Nat.le_trans (h.read time htime) (Nat.le_add_right _ _)
    since := ⟨h.since.1, Nat.le_trans h.since.2 (Nat.le_add_right _ _)⟩ }

private theorem weighed_add {tokens refill dropped weight before : Nat}
    (h : 10 ^ 9 * tokens + dropped = before) (hlight : 10 ^ 9 * refill ≤ weight) :
    10 ^ 9 * (tokens + refill) + (dropped + (weight - 10 ^ 9 * refill)) = weight + before := by
  omega

private theorem sound_tick (hlimit : 0 < limit) {s : Limiter} (h : Sound limit start s)
    (hwaiting : s.refill = .waiting) : Sound limit start s.tick := by
  have hpositive : s.limitBps ≠ 0 := by rw [h.limited]; omega
  have hsorted : (start :: (s.ticks ++ [s.clock])).Pairwise (· ≤ ·) := by
    rw [← List.cons_append, List.pairwise_append]
    refine ⟨h.sorted, List.pairwise_singleton _ _, fun time htime now hnow ↦ ?_⟩
    rw [List.mem_singleton.mp hnow]
    exact h.read time htime
  have hread : ∀ time ∈ start :: (s.ticks ++ [s.clock]), time ≤ s.clock := by
    intro time htime
    rw [← List.cons_append, List.mem_append, List.mem_singleton] at htime
    rcases htime with htime | rfl
    · exact h.read time htime
    · exact Nat.le_refl _
  have hpending : s.refill.pending = 0 := by rw [hwaiting]; rfl
  have hweighed := h.weighed
  have hrun : run (Pace.tickCode limit) ⟨start, 0⟩ (s.ticks ++ [s.clock]) =
      (run (Pace.tickCode limit) ⟨start, 0⟩ s.ticks).tickCode limit s.clock := run_concat _ _ _ _
  unfold tick
  rw [if_neg hpositive]
  dsimp only
  have hamount : refillAmount s.limitBps (s.clock - s.lastRefill) =
      refillAmount limit (s.clock - (run (Pace.tickCode limit) ⟨start, 0⟩ s.ticks).last) := by
    rw [h.limited, ← h.last]
  split
  · next hzero =>
    rw [hamount] at hzero
    have hsame : run (Pace.tickCode limit) ⟨start, 0⟩ (s.ticks ++ [s.clock]) =
        run (Pace.tickCode limit) ⟨start, 0⟩ s.ticks := by
      rw [hrun, Pace.tickCode]
      exact if_pos hzero
    exact { h with
      sorted := hsorted
      read := hread
      last := by rw [hsame]; exact h.last
      weighed := by rw [hsame]; exact h.weighed }
  · next hsome =>
    rw [hamount] at hsome
    have hnext : run (Pace.tickCode limit) ⟨start, 0⟩ (s.ticks ++ [s.clock]) =
        ⟨s.clock, (run (Pace.tickCode limit) ⟨start, 0⟩ s.ticks).dropped +
          (limit * (s.clock - s.lastRefill) -
            10 ^ 9 * refillAmount limit (s.clock - s.lastRefill))⟩ := by
      rw [hrun, Pace.tickCode, h.last]
      exact if_neg hsome
    have hsplit : limit * (s.clock - start) =
        limit * (s.clock - s.lastRefill) + limit * (s.lastRefill - start) := by
      rw [← Nat.mul_add]
      congr 1
      have := h.since
      omega
    have hlight := refillAmount_weight limit (s.clock - s.lastRefill)
    exact { h with
      phase := by rw [h.limited]; exact rfl
      sorted := hsorted
      read := hread
      last := by rw [hnext]
      since := ⟨Nat.le_trans h.since.1 h.since.2, Nat.le_refl _⟩
      weighed := by
        rw [hpending, Nat.add_zero] at hweighed
        simp only [hnext, RefillPhase.pending, h.limited, hsplit]
        exact weighed_add hweighed hlight }

/-- The value that is swapped in adds at most the refill to what was read. -/
theorem newVal_bounds {refill current newVal : Nat} (hcurrent : current ≤ cap limit)
    (hnew : newVal = min (min (current + refill) maxU64) (cap limit)) :
    current ≤ newVal ∧ newVal ≤ current + refill ∧ newVal ≤ cap limit := by
  have hcap := cap_le_maxU64 limit
  omega

private theorem sound_advanceRefill {s : Limiter} (h : Sound limit start s) (spurious : Bool) :
    Sound limit start (s.advanceRefill spurious) := by
  have hweighed := h.weighed
  have hphase := h.phase
  unfold advanceRefill
  split
  · next refill capacity hadding =>
    rw [hadding] at hweighed hphase
    dsimp only
    split
    · exact { h with
        phase := trivial
        weighed := by
          rw [← hweighed]
          simp only [RefillPhase.pending]
          omega }
    · exact { h with
        phase := ⟨hphase, rfl⟩
        weighed := hweighed }
  · next refill capacity current newVal hswapping =>
    rw [hswapping] at hweighed hphase
    obtain ⟨hcapacity, hnew⟩ := hphase
    split
    · next hswap =>
      rw [hcapacity] at hnew
      have hcurrent : current ≤ cap limit := by
        rw [← hswap.1]
        exact h.capped
      obtain ⟨hlow, hhigh, hcapped⟩ := newVal_bounds hcurrent hnew
      have hconserved := h.conserved
      rw [hswap.1] at hconserved
      exact { h with
        conserved := by
          change s.granted + newVal = s.added + (newVal - current)
          omega
        capped := hcapped
        phase := trivial
        weighed := by
          rw [← hweighed]
          simp only [RefillPhase.pending]
          omega }
    · exact { h with
        phase := hcapacity
        weighed := hweighed }
  · exact h
  · exact h

private theorem sound_setCaller {s : Limiter} (h : Sound limit start s) (caller : Nat)
    (phase : Option ConsumePhase) : Sound limit start (s.setCaller caller phase) :=
  { h with }

private theorem sound_proceed {s : Limiter} (h : Sound limit start s) (caller : Nat)
    (spurious : Bool) : Sound limit start (s.proceed caller spurious) := by
  unfold proceed
  split
  · exact h
  · split
    · exact sound_setCaller h _ _
    · exact sound_setCaller h _ _
  · next requested hcaller =>
    split
    · exact sound_setCaller h _ _
    · exact { sound_setCaller h caller (some (.waiting requested)) with }
  · next requested available hcaller =>
    dsimp only
    split
    · next hswap =>
      have hconserved := h.conserved
      have hcapped := h.capped
      exact { sound_setCaller h caller none with
        conserved := by
          change s.granted + min requested available + (available - min requested available) =
            s.added
          omega
        capped := by
          change available - min requested available ≤ cap limit
          omega }
    · exact sound_setCaller h _ _
  · exact sound_setCaller h _ _

/-- The operation leaves the limit as it is. -/
def KeepsLimit : LimiterOp → Prop
  | .setLimit _ => False
  | _ => True

instance : DecidablePred KeepsLimit
  | .setLimit _ => .isFalse id
  | .advance _ | .tick | .refill _ | .wake | .consume _ _ | .proceed _ _ => .isTrue trivial

private theorem sound_step (hlimit : 0 < limit) {s : Limiter} {op : LimiterOp}
    (h : Sound limit start s) (hkeeps : KeepsLimit op) : Sound limit start (s.step op) := by
  cases op with
  | advance ns => exact sound_advance h ns
  | setLimit limitBps => exact absurd hkeeps id
  | tick =>
    simp only [step]
    split
    · next hwaiting => exact sound_tick hlimit h hwaiting
    · exact h
  | refill spurious => exact sound_advanceRefill h spurious
  | wake =>
    have hphase := h.phase
    simp only [step, wake]
    split
    · next hidle =>
      rw [hidle] at hphase
      exact absurd hphase id
    · exact h
  | consume caller requested =>
    simp only [step, consume]
    split
    · exact h
    · exact { h with }
  | proceed caller spurious => exact sound_proceed h caller spurious

private theorem sound_run (hlimit : 0 < limit) {ops : List LimiterOp}
    (hkeeps : ∀ op ∈ ops, KeepsLimit op) : Sound limit start (run step (new limit start) ops) :=
  run_invariant (fun _ _ ↦ sound_step hlimit) (sound_new limit start)
    (EveryStep.of_forall_mem (fun op hop _ ↦ hkeeps op hop) _)

/-- Tokens that were added are worth at most the time that has passed. -/
theorem Sound.added_le {s : Limiter} (h : Sound limit start s) :
    10 ^ 9 * s.added ≤ limit * (s.clock - start) := by
  have hweighed := h.weighed
  have htime : limit * (s.lastRefill - start) ≤ limit * (s.clock - start) :=
    Nat.mul_le_mul_left limit (Nat.sub_le_sub_right h.since.2 start)
  omega

/-- Between ticks, with nothing cut off at the cap, the tokens added and what is missing make up
the time of the last tick. -/
theorem Sound.added_missing {s : Limiter} (h : Sound limit start s)
    (hwaiting : s.refill = .waiting) (hclamped : s.clamped = 0) :
    10 ^ 9 * s.added + missing limit (run (Pace.tickCode limit) ⟨start, 0⟩ s.ticks)
        (lastTick start s.ticks) = limit * (lastTick start s.ticks - start) := by
  have hweighed := h.weighed
  rw [hwaiting, hclamped] at hweighed
  have hlast : s.lastRefill ≤ lastTick start s.ticks := by
    rw [h.last]
    exact last_run_le limit h.sorted (Nat.le_refl _)
  have hsplit : limit * (lastTick start s.ticks - start) =
      limit * (lastTick start s.ticks - s.lastRefill) + limit * (s.lastRefill - start) := by
    rw [← Nat.mul_add]
    congr 1
    have := h.since
    omega
  unfold missing
  rw [← h.last, hsplit, ← hweighed]
  simp only [RefillPhase.pending]
  omega

/-- Under a fixed limit the tokens added never exceed what the time is worth, what was granted
never exceeds the tokens added, and no more than the cap is ever in the bucket; as long as the
cap cuts nothing off, the tokens added stay within one of what the last tick's time is worth
exactly while the ticks keep pace. -/
theorem refill_rate (limit start : Nat) (hlimit : 0 < limit) (ops : List LimiterOp)
    (hkeeps : ∀ op ∈ ops, KeepsLimit op) :
    let s := run step (new limit start) ops
    10 ^ 9 * s.added ≤ limit * (s.clock - start) ∧ s.granted ≤ s.added ∧ s.tokens ≤ cap limit ∧
      (s.refill = .waiting → s.clamped = 0 →
        (limit * (lastTick start s.ticks - start) ≤ 10 ^ 9 * (s.added + 1) ↔
          KeepsPace limit start s.ticks)) := by
  intro s
  have h : Sound limit start s := sound_run hlimit hkeeps
  refine ⟨h.added_le, ?_, h.capped, fun hwaiting hclamped ↦ ?_⟩
  · have := h.conserved
    omega
  · have hmissing := h.added_missing hwaiting hclamped
    have hiff := missing_iff limit hlimit ⟨start, 0⟩ h.sorted
    unfold KeepsPace
    unfold missing at hiff hmissing
    rw [← hiff]
    omega

/-- A refill tick of 50 ms that adds its tokens at once. -/
def plainTick : List LimiterOp := [.advance 50000000, .tick, .refill false, .refill false]

/-- At 20 bytes per second every tick is worth one token. -/
theorem refill_rate_whole_tokens :
    let s := run step (new 20 0) (plainTick ++ plainTick ++ plainTick)
    20 * (lastTick 0 s.ticks - 0) ≤ 10 ^ 9 * (s.added + 1) := by
  have h := refill_rate 20 0 (by decide) (plainTick ++ plainTick ++ plainTick) (by decide)
  exact (h.2.2.2 (by decide +kernel) (by decide +kernel)).mpr (by decide +kernel)

/-- At 30 bytes per second every tick is worth one and a half tokens and adds one. -/
theorem refill_rate_lags :
    let s := run step (new 30 0) (plainTick ++ plainTick ++ plainTick)
    s.refill = .waiting ∧ s.clamped = 0 ∧
      ¬ 30 * (lastTick 0 s.ticks - 0) ≤ 10 ^ 9 * (s.added + 1) := by
  decide +kernel

end Limiter

end Engine.SpeedLimiter
