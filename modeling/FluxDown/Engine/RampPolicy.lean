import FluxDown.Engine.WorkAssignment

/-!
# Connection ramp policy

Library `Engine`. The pure decisions of the adaptive connection quota: verdicts on a window's
throughput, when to shrink, grow, probe or lift the ceiling, and how a freeze evolves.
Throughput is `f64` in the source. Nothing here depends on the laws of its arithmetic, so the
type of a sample is a parameter: `Float` is the source's, the rationals evaluate in proofs.
-/

namespace Engine.Ramp

/-- Arithmetic the policy needs of a throughput sample. -/
class Bps (F : Type) extends Mul F, Sub F, Div F, Max F, LT F, OfScientific F where
  /-- The order is decidable. -/
  decidableLT : DecidableLT F
  /-- `as f64`. -/
  ofNat : Nat → F
  /-- `f64::is_finite`. -/
  isFinite : F → Bool

instance Bps.instDecidableLT {F : Type} [Bps F] : DecidableLT F := Bps.decidableLT

instance : Bps Float where
  max a b := if a.isNaN then b else if b.isNaN then a else if a < b then b else a
  decidableLT := inferInstance
  ofNat := Float.ofNat
  isFinite := Float.isFinite

instance : Bps ℚ where
  decidableLT := inferInstance
  ofNat n := n
  isFinite _ := true

/-- Connections a task starts with (`src/native/engine/src/segment_coordinator.rs:475`). -/
def rampInitialWorkers : Nat := 4

/-- Full ticks a soft freeze waits before it probes (`segment_coordinator.rs:488`). -/
def rampSoftProbeCooldownTicks : Nat := 15

/-- Probes of one soft freeze (`segment_coordinator.rs:492`). -/
def rampSoftProbeMaxAttempts : Nat := 2

/-- Probes of one task (`segment_coordinator.rs:496`). -/
def rampSoftProbeTaskBudget : Nat := 6

/-- Windows that count as sustained degradation (`segment_coordinator.rs:542`). -/
def rampShrinkStrikes : Nat := 2

/-- Windows in which a shrink must pay off (`segment_coordinator.rs:547`). -/
def rampShrinkEvalWindows : Nat := 2

/-- Split threshold at high speed (`segment_coordinator.rs:433`). -/
def minSplitBytes : Int := 2 * 1024 * 1024

/-- A tail is less than one part in so many of the file (`segment_coordinator.rs:438`). -/
def tailFractionDenom : Int := 50

/-- Platforms that differ in the automatic ceiling (`segment_coordinator.rs:503–506`). -/
inductive Platform where
  /-- Android and iOS. -/
  | mobile
  /-- Every other target. -/
  | desktop
deriving DecidableEq, Repr

/-- Highest ceiling the ramp lifts itself to. -/
def Platform.hintUncapMax : Platform → Nat
  | .mobile => 32
  | .desktop => 64

/-- Conclusion on a shrink (`segment_coordinator.rs:551–558`). -/
inductive ShrinkEval where
  /-- Not enough evidence yet. -/
  | pending
  /-- Throughput recovered: keep the shrink. -/
  | confirmed
  /-- Throughput did not recover: undo the shrink. -/
  | revert
deriving DecidableEq, Repr

/-- Conclusion on an expansion (`segment_coordinator.rs:580–587`). -/
inductive RampVerdict where
  /-- A net gain. -/
  | improved
  /-- No net gain: freeze. -/
  | freeze
  /-- A collapse: roll back. -/
  | collapse
deriving DecidableEq, Repr

/-- Freeze of the ramp (`segment_coordinator.rs:591–602`). -/
inductive FreezeState where
  /-- Doubling is allowed. -/
  | active
  /-- Probing by one is allowed after a cooldown. -/
  | soft (ticksWaited cooldown attempts : Nat)
  /-- No expansion for the rest of the task. -/
  | hard
deriving DecidableEq, Repr

section Verdicts

variable {F : Type} [Bps F]

/-- Verdict on a shrink after `windows` full windows (`segment_coordinator.rs:562–570`). -/
def shrinkEvalVerdict (shrunkBps bestBps : F) (windows : Nat) : ShrinkEval :=
  if shrunkBps * 1.05 < bestBps then .confirmed
  else if rampShrinkEvalWindows ≤ windows then .revert
  else .pending

/-- Verdict on an expansion (`segment_coordinator.rs:607–615`). -/
def rampVerdict (preGrowBps currentBps : F) : RampVerdict :=
  if preGrowBps * 1.05 < currentBps then .improved
  else if currentBps < preGrowBps * 0.5 then .collapse
  else .freeze

/-- Whether a window counts as a strike (`segment_coordinator.rs:634–649`). -/
def shouldShrink (throughput peak : F) (allowed cap alive : Nat) (frozen awaitingEval : Bool) :
    Bool :=
  !awaitingEval && (frozen || cap ≤ allowed) && 1 < allowed && alive = allowed &&
    (0.0 : F) < peak && throughput < peak * 0.5

/-- The ceiling after an expansion to it paid off almost linearly
(`segment_coordinator.rs:714–745`). -/
def inTaskUncapCeiling (hintUncapMax : Nat) (allow : Bool) (negativeCap : Option Int)
    (cap preWorkers workers : Nat) (preBps bps : F) (remaining : Int) : Nat :=
  if !allow || negativeCap.isSome || workers < cap || preWorkers = 0 then cap
  else if workers ≤ preWorkers || !((0.0 : F) < preBps && Bps.isFinite bps) then cap
  else
    let connGain : F := Bps.ofNat workers / Bps.ofNat preWorkers - 1.0
    let rateGain := bps / preBps - 1.0
    if rateGain < connGain * 0.8 then cap
    else
      let target := min (min (cap * 2) hintUncapMax) maxSegments
      let fed := target * 2 * minSplitBytes
      if cap < target ∧ fed ≤ remaining then target else cap

end Verdicts

/-- The remaining bytes neither feed every connection nor matter to the whole
(`segment_coordinator.rs:625–627`). -/
def isTail (remaining : Int) (workerCap : Nat) (total : Int) : Bool :=
  remaining < workerCap * minSplitBytes && remaining < total.tdiv tailFractionDenom

/-- Whether the quota may double (`segment_coordinator.rs:653–662`). -/
def shouldExpand (frozen connSensitive : Bool) (alive allowed cap : Nat) (shrunkThisTick : Bool) :
    Bool :=
  !frozen && !connSensitive && allowed ≤ alive && allowed < cap && !shrunkThisTick

/-- `i32 as usize` on a 64-bit target. -/
def asUsize (n : Int) : Nat := (n % 2 ^ 64).toNat

/-- Quota at the start of a task (`segment_coordinator.rs:667–673`). -/
def initialAllowedWorkers (workerCap : Nat) (hint : Option Int) : Nat :=
  let base := match hint with
    | some h => if rampInitialWorkers < asUsize h then asUsize h else rampInitialWorkers
    | none => rampInitialWorkers
  max (min workerCap base) 1

/-- Ceiling a positive hint lifts the plan to (`segment_coordinator.rs:682–702`). -/
def hintUncapCeiling (hintUncapMax : Nat) (allow : Bool) (negativeCap hint : Option Int)
    (baseCap : Nat) : Nat :=
  if !allow || negativeCap.isSome then baseCap
  else match hint with
    | none => baseCap
    | some h =>
      if h ≤ 0 then baseCap
      else
        let target := min (min (h.toNat * 2) hintUncapMax) maxSegments
        if baseCap < target then target else baseCap

/-- Whether a soft freeze may probe (`segment_coordinator.rs:751–781`). -/
def softProbeReady (freeze : FreezeState) (tail rangeOk serialMode connSensitive : Bool)
    (rejectStrikes alive allowed workerCap taskProbesUsed : Nat) : Bool :=
  match freeze with
  | .soft ticksWaited cooldown attempts =>
    cooldown ≤ ticksWaited && attempts < rampSoftProbeMaxAttempts && !tail && rangeOk &&
      !serialMode && !connSensitive && rejectStrikes = 0 && allowed ≤ alive &&
      allowed < workerCap && taskProbesUsed < rampSoftProbeTaskBudget
  | _ => false

/-- Saturating `u32` result. -/
def satU32 (n : Nat) : Nat := min n (2 ^ 32 - 1)

/-- Next freeze after a probe, and whether to roll back (`segment_coordinator.rs:787–812`). -/
def softProbeEvalTransition (verdict : RampVerdict) (attempts cooldown : Nat) :
    FreezeState × Bool :=
  match verdict with
  | .improved => (.active, false)
  | .freeze =>
    let nextAttempts := satU32 (attempts + 1)
    if rampSoftProbeMaxAttempts ≤ nextAttempts then (.hard, true)
    else (.soft 0 (satU32 (cooldown * 2)) nextAttempts, true)
  | .collapse => (.hard, true)

/-- Next freeze after an expansion without gain (`segment_coordinator.rs:816–826`). -/
def freezeVerdictNextState (taskProbesUsed : Nat) : FreezeState :=
  if rampSoftProbeTaskBudget ≤ taskProbesUsed then .hard
  else .soft 0 rampSoftProbeCooldownTicks 0

/-- Next freeze after a shrink (`segment_coordinator.rs:829–835`). -/
def sustainedShrinkNextState (current : FreezeState) (taskProbesUsed : Nat) : FreezeState :=
  if current = .active then freezeVerdictNextState taskProbesUsed else .hard

/-! ## Facts about the policy -/

/-- The ceiling is not lifted above the platform's limit. -/
theorem inTaskUncapCeiling_le {F : Type} [Bps F] (hintUncapMax : Nat) (allow : Bool)
    (negativeCap : Option Int) (cap preWorkers workers : Nat) (preBps bps : F)
    (remaining : Int) :
    inTaskUncapCeiling hintUncapMax allow negativeCap cap preWorkers workers preBps bps
      remaining ≤ max cap hintUncapMax := by
  unfold inTaskUncapCeiling
  dsimp only
  split_ifs
  · exact Nat.le_max_left _ _
  · exact Nat.le_max_left _ _
  · exact Nat.le_max_left _ _
  · have htarget : min (min (cap * 2) hintUncapMax) maxSegments ≤ hintUncapMax := by omega
    exact htarget.trans (Nat.le_max_right _ _)
  · exact Nat.le_max_left _ _

/-- A task starts within its ceiling. -/
theorem initialAllowedWorkers_bounds {workerCap : Nat} (h : 1 ≤ workerCap) (hint : Option Int) :
    1 ≤ initialAllowedWorkers workerCap hint ∧
      initialAllowedWorkers workerCap hint ≤ workerCap := by
  unfold initialAllowedWorkers
  dsimp only
  omega

/-- The raised ceiling is not below the cap. -/
theorem le_hintUncapCeiling (hintUncapMax : Nat) (allow : Bool) (negativeCap hint : Option Int)
    (baseCap : Nat) : baseCap ≤ hintUncapCeiling hintUncapMax allow negativeCap hint baseCap := by
  unfold hintUncapCeiling
  split_ifs
  · exact Nat.le_refl baseCap
  · split
    · exact Nat.le_refl baseCap
    · next h =>
      by_cases hpos : h ≤ 0
      · simp [hpos]
      · simp only [hpos, if_false]
        split_ifs with hlt
        · exact hlt.le
        · exact Nat.le_refl baseCap

/-- A shrink never thaws a hard freeze. -/
@[simp] theorem sustainedShrinkNextState_hard (taskProbesUsed : Nat) :
    sustainedShrinkNextState .hard taskProbesUsed = .hard := by
  simp [sustainedShrinkNextState]

/-- Only a soft freeze with probes left is probed. -/
theorem softProbeReady_spec {freeze : FreezeState}
    {tail rangeOk serialMode connSensitive : Bool}
    {rejectStrikes alive allowed workerCap taskProbesUsed : Nat}
    (h : softProbeReady freeze tail rangeOk serialMode connSensitive rejectStrikes alive allowed
      workerCap taskProbesUsed = true) :
    freeze ≠ .hard ∧ freeze ≠ .active ∧ allowed < workerCap ∧
      taskProbesUsed < rampSoftProbeTaskBudget := by
  unfold softProbeReady at h
  split at h
  · simp only [Bool.and_eq_true, decide_eq_true_eq] at h
    simp [h.2, h.1.2]
  · simp at h

/-- A quota that is raised was not frozen and not at the cap. -/
theorem shouldExpand_spec {frozen connSensitive : Bool} {alive allowed cap : Nat}
    {shrunkThisTick : Bool}
    (h : shouldExpand frozen connSensitive alive allowed cap shrunkThisTick = true) :
    frozen = false ∧ allowed < cap := by
  simp only [shouldExpand, Bool.and_eq_true, Bool.not_eq_true', decide_eq_true_eq] at h
  exact ⟨h.1.1.1.1, h.1.2⟩

/-- A quota that is lowered was all alive and not awaited. -/
theorem shouldShrink_alive {F : Type} [Bps F] {throughput peak : F} {allowed cap alive : Nat}
    {frozen awaitingEval : Bool}
    (h : shouldShrink throughput peak allowed cap alive frozen awaitingEval = true) :
    alive = allowed ∧ awaitingEval = false := by
  simp only [shouldShrink, Bool.and_eq_true, Bool.not_eq_true', decide_eq_true_eq] at h
  exact ⟨h.1.1.2, h.1.1.1.1.1⟩

end Engine.Ramp
