import Mathlib

/-!
# Path scheduling decisions

Library `Engine`. The pure split decisions of `src/native/engine/src/path_scheduler.rs`:
how many of the remaining bytes the holder of a segment keeps when a helper takes the rest.
Rates are `f64` bytes per second; byte counts are integers. Every split is clamped so that
both sides keep at least `min(MIN_SPLIT_PIECE, remaining / 2)` bytes, whatever the rates.
-/

namespace Engine.PathScheduler

/-- Bytes each side of a split keeps at least (`path_scheduler.rs:50`). -/
def minSplitPiece : Int := 64 * 1024

/-- Positive infinity of `f64`. -/
def infinity : Float := 1.0 / 0.0

/-- The order of `f64::total_cmp`, as an integer key on the bit pattern. -/
def totalOrderKey (r : Float) : Int :=
  let bits : Int := r.toBits.toNat
  if bits < 2 ^ 63 then bits else 2 ^ 63 - 1 - bits

/-- `f64::total_cmp`. -/
def totalCmp (a b : Float) : Ordering := compare (totalOrderKey a) (totalOrderKey b)

/-- Estimated completion seconds; an unknown or zero rate never completes
(`path_scheduler.rs:157–165`). -/
def completionSecs (remaining : Int) (bps : Float) : Float :=
  if bps > 0.0 && bps.isFinite then Float.ofInt (max remaining 0) / bps else infinity

/-- The smallest piece either side keeps. -/
def splitPiece (remaining : Int) : Int := max (min minSplitPiece (remaining.tdiv 2)) 1

/-- `i64::clamp` between the smallest piece and what that piece leaves. -/
def clampKeep (remaining keep : Int) : Int :=
  let piece := splitPiece remaining
  max piece (min keep (max (remaining - piece) piece))

/-- Balanced split: the bytes the holder keeps so that both sides finish together
(`path_scheduler.rs:114–125`). -/
def balancedKeep (remaining : Int) (holderBps helperBps : Option Float) : Int :=
  match holderBps, helperBps with
  | some holder, some helper =>
    if !(holder.isFinite && helper.isFinite) || holder < 0.0 || helper ≤ 0.0 then
      remaining.tdiv 2
    else
      clampKeep remaining
        (Float.ofInt remaining * holder / (holder + helper)).toInt64.toInt
  | _, _ => remaining.tdiv 2

/-- Balanced split that charges the helper its request setup; `none` when the holder
finishes before the helper would start (`path_scheduler.rs:132–155`). -/
def splitKeepWithSetup (remaining : Int) (holderBps helperBps : Option Float)
    (setupSecs : Float) : Option Int :=
  match holderBps, helperBps with
  | some holder, some helper =>
    if !(setupSecs.isFinite && setupSecs > 0.0 && holder > 0.0) then
      some (balancedKeep remaining holderBps helperBps)
    else if completionSecs remaining holder ≤ setupSecs then none
    else if !(helper.isFinite && helper > 0.0 && holder.isFinite) then
      some (balancedKeep remaining holderBps helperBps)
    else
      some (clampKeep remaining
        (holder * (setupSecs * helper + Float.ofInt remaining) /
          (holder + helper)).toInt64.toInt)
  | _, _ => some (balancedKeep remaining holderBps helperBps)

end Engine.PathScheduler
