import FluxDown.Engine.Ramp

/-!
# Quota safety

Library `Engine`. What every run of the coordinator's loop keeps of the connection quota. The
invariant bounds the live workers by the quota, which is what makes halving the number of live
workers a demotion; only while connections drain from a rollback of the ceiling may there be
more of them.
-/

namespace Engine.Ramp

open Base

variable {F : Type} {bound : Nat} {s : Coordinator F}

/-- What holds between the events of the loop. -/
structure Coordinator.Inv (bound : Nat) (s : Coordinator F) : Prop where
  /-- Some connection is allowed. -/
  one_le : 1 ≤ s.allowedWorkers
  /-- The quota respects the ceiling. -/
  le_cap : s.allowedWorkers ≤ s.workerCap
  /-- The ceiling respects its bound. -/
  cap_le : s.workerCap ≤ bound
  /-- A ceiling was only ever lifted. -/
  floor : ∀ floor, s.uncapFloor = some floor → 1 ≤ floor ∧ floor ≤ s.workerCap
  /-- A growth under evaluation can be undone. -/
  window : s.awaitingRampEval = true → 1 ≤ s.preGrowWorkers ∧
    s.preGrowWorkers ≤ s.allowedWorkers ∧ s.allowedWorkers ≤ 2 * s.preGrowWorkers ∧
    s.alive ≤ 2 * s.preGrowWorkers + 1
  /-- The live workers fit the quota or drain to it. -/
  crowd : s.alive ≤ 2 * s.allowedWorkers + 1 ∨ s.freeze = .hard ∧
    ∃ quota, s.rejectQuota = some quota ∧ quota < s.alive ∧ quota ≤ 2 * s.allowedWorkers + 1
  /-- Probes stay in their budget. -/
  probes : s.softProbeTaskUsed ≤ rampSoftProbeTaskBudget
  /-- A growth is evaluated before a hard freeze, or never. -/
  thawed : s.awaitingRampEval = true → s.freeze = .hard → s.rangeVerdict = .unsupported
  /-- A verdict under way is the shared one. -/
  verdict : s.rangeEvent = some false → s.rangeVerdict = .unsupported

/-- Parts a step of the loop leaves alone. -/
structure Coordinator.Frame (s s' : Coordinator F) : Prop where
  /-- The freeze. -/
  freeze : s'.freeze = s.freeze
  /-- The learned cap. -/
  domainCap : s'.domainCap = s.domainCap
  /-- The kind of the last growth. -/
  probeWindow : s'.probeWindow = s.probeWindow

private theorem Coordinator.Frame.refl (s : Coordinator F) : s.Frame s := ⟨rfl, rfl, rfl⟩

private theorem Coordinator.Frame.trans {s t u : Coordinator F} (h : s.Frame t) (h' : t.Frame u) :
    s.Frame u :=
  ⟨h'.freeze.trans h.freeze, h'.domainCap.trans h.domainCap,
    h'.probeWindow.trans h.probeWindow⟩

/-! ## Worker slots -/

private theorem count_set_false_le (slots : List Bool) (n : Nat) :
    (slots.set n false).count true ≤ slots.count true := by
  induction slots generalizing n with
  | nil => simp
  | cons open? slots ih =>
    cases n with
    | zero => cases open? <;> simp
    | succ n =>
      have hn := ih n
      simp only [List.set_cons_succ, List.count_cons]
      omega

private theorem Coordinator.alive_closeSlot_le (s : Coordinator F) (worker : Nat) :
    (s.closeSlot worker).alive ≤ s.alive :=
  count_set_false_le s.slots worker

/-- Spawned workers are alive. -/
@[simp] theorem Coordinator.alive_spawn (s : Coordinator F) (n : Nat) :
    (s.spawn n).alive = s.alive + n := by
  simp [Coordinator.alive, Coordinator.spawn]

/-- A stop leaves no worker alive. -/
@[simp] theorem Coordinator.alive_stop (s : Coordinator F) : s.stop.alive = 0 := by
  simp [Coordinator.alive, Coordinator.stop, List.count_eq_zero]

/-- Fewer live workers keep the invariant. -/
theorem Coordinator.Inv.drain (hs : s.Inv bound) {slots : List Bool}
    (h : slots.count true ≤ s.alive) : Coordinator.Inv bound { s with slots := slots } :=
  { hs with
    window := by
      intro hawait
      obtain ⟨hone, hpre, hdouble, halive⟩ := hs.window hawait
      exact ⟨hone, hpre, hdouble, h.trans halive⟩
    crowd := by
      rcases hs.crowd with hle | ⟨hhard, quota, hquota, -, hle⟩
      · exact Or.inl (h.trans hle)
      · by_cases hlt : quota < slots.count true
        · exact Or.inr ⟨hhard, quota, hquota, hlt, hle⟩
        · left
          change slots.count true ≤ 2 * s.allowedWorkers + 1
          omega }

private theorem Coordinator.Inv.closeSlot (hs : s.Inv bound) (worker : Nat) :
    (s.closeSlot worker).Inv bound :=
  hs.drain (s.alive_closeSlot_le worker)

private theorem Coordinator.Inv.stop (hs : s.Inv bound) : s.stop.Inv bound := by
  have hnone : (s.slots.map fun _ ↦ false).count true = 0 := s.alive_stop
  have h := hs.drain (hnone.trans_le (Nat.zero_le _))
  exact { h with }

private theorem Coordinator.Inv.spawn (hs : s.Inv bound) {n : Nat}
    (h : 0 < n → s.alive + n ≤ s.allowedWorkers + 1) : (s.spawn n).Inv bound := by
  have hone := hs.one_le
  exact
    { hs with
      window := by
        intro hawait
        obtain ⟨hpos, hpre, hdouble, halive⟩ := hs.window hawait
        refine ⟨hpos, hpre, hdouble, ?_⟩
        rw [Coordinator.alive_spawn]
        change s.alive + n ≤ 2 * s.preGrowWorkers + 1
        omega
      crowd := by
        rw [Coordinator.alive_spawn]
        change s.alive + n ≤ 2 * s.allowedWorkers + 1 ∨ _
        rcases Nat.eq_zero_or_pos n with rfl | hn
        · exact hs.crowd
        · have := h hn
          left
          omega }

private theorem frame_closeSlot (s : Coordinator F) (worker : Nat) :
    s.Frame (s.closeSlot worker) := ⟨rfl, rfl, rfl⟩

private theorem frame_spawn (s : Coordinator F) (n : Nat) : s.Frame (s.spawn n) := ⟨rfl, rfl, rfl⟩

private theorem frame_stop (s : Coordinator F) : s.Frame s.stop := ⟨rfl, rfl, rfl⟩

private theorem Coordinator.Inv.refill (hs : s.Inv bound) (supply : Supply) :
    (s.refill supply).Inv bound := by
  have hspawn : (s.spawn (min supply.count (s.allowedWorkers - s.alive))).Inv bound := by
    apply hs.spawn
    omega
  unfold Coordinator.refill
  dsimp only
  split_ifs
  · exact hspawn.stop
  · exact hspawn

private theorem frame_refill (s : Coordinator F) (supply : Supply) :
    s.Frame (s.refill supply) := by
  unfold Coordinator.refill
  dsimp only
  split_ifs
  · exact (frame_spawn s _).trans (frame_stop _)
  · exact frame_spawn s _

private theorem Coordinator.Inv.reconcile (hs : s.Inv bound) (finished : List Nat) :
    (s.reconcile finished).Inv bound := by
  unfold Coordinator.reconcile
  induction finished generalizing s with
  | nil => exact hs
  | cons worker finished ih => exact ih (hs.closeSlot worker)

private theorem frame_reconcile (s : Coordinator F) (finished : List Nat) :
    s.Frame (s.reconcile finished) := by
  unfold Coordinator.reconcile
  induction finished generalizing s with
  | nil => exact Coordinator.Frame.refl s
  | cons worker finished ih => exact (frame_closeSlot s worker).trans (ih _)

/-! ## Ramp tick -/

private theorem Coordinator.Inv.waitSoft (hs : s.Inv bound) : s.waitSoft.Inv bound := by
  unfold Coordinator.waitSoft
  split
  · next _ hfreeze =>
    have hcrowd : s.alive ≤ 2 * s.allowedWorkers + 1 := by simpa [hfreeze] using hs.crowd
    exact
      { hs with
        crowd := Or.inl hcrowd
        thawed := by simp }
  · exact hs

private theorem waitSoft_hard : s.freeze = .hard → s.waitSoft.freeze = .hard := by
  intro hhard
  simp [Coordinator.waitSoft, hhard]

private theorem waitSoft_keeps (s : Coordinator F) :
    s.waitSoft.domainCap = s.domainCap ∧ s.waitSoft.probeWindow = s.probeWindow := by
  unfold Coordinator.waitSoft
  split <;> exact ⟨rfl, rfl⟩

/-- A growth under evaluation is given up: by rollback or by keeping it. -/
theorem Coordinator.Inv.settle (hs : s.Inv bound) (hawait : s.awaitingRampEval = true)
    {quota : Nat} (hquota : quota = s.allowedWorkers ∨ quota = max s.preGrowWorkers 1)
    (scale : Nat) (freeze : FreezeState) :
    Coordinator.Inv bound { s with
      awaitingRampEval := false
      probeWindow := false
      freeze := freeze
      allowedWorkers := quota
      beneficialScale := scale } := by
  obtain ⟨hone, hpre, -, halive⟩ := hs.window hawait
  have hcap := hs.le_cap
  refine { hs with one_le := ?_, le_cap := ?_, window := ?_, crowd := ?_, thawed := ?_ }
  · change 1 ≤ quota
    omega
  · change quota ≤ s.workerCap
    omega
  · simp
  · left
    change s.alive ≤ 2 * quota + 1
    omega
  · simp

private theorem Coordinator.Inv.settleProbe (hs : s.Inv bound) (hawait : s.awaitingRampEval = true)
    (verdict : RampVerdict) :
    (Coordinator.settleProbe { s with awaitingRampEval := false, probeWindow := false }
      verdict).Inv bound := by
  unfold Coordinator.settleProbe
  dsimp only
  split_ifs
  · exact hs.settle hawait (Or.inr rfl) _ _
  · exact hs.settle hawait (Or.inl rfl) _ _

private theorem settleProbe_domainCap (s : Coordinator F) (verdict : RampVerdict) :
    (s.settleProbe verdict).domainCap = s.domainCap := by
  unfold Coordinator.settleProbe
  dsimp only
  split_ifs <;> rfl

private theorem Coordinator.Inv.revive (hs : s.Inv bound) (t : TickSample F) :
    (s.revive t).Inv bound := by
  have hdisarmed : Coordinator.Inv bound { s with reviveArmed := false } := { hs with }
  have hone := hs.one_le
  unfold Coordinator.revive
  dsimp only
  split_ifs with _ hidle
  · exact hdisarmed.stop
  · apply hdisarmed.spawn
    intro _
    rw [hidle]
    change 0 + _ ≤ s.allowedWorkers + 1
    omega
  · exact hdisarmed
  · exact hs

private theorem frame_revive (s : Coordinator F) (t : TickSample F) : s.Frame (s.revive t) := by
  unfold Coordinator.revive
  dsimp only
  split_ifs <;> exact ⟨rfl, rfl, rfl⟩

private theorem Coordinator.Inv.explore (hs : s.Inv bound) (t : TickSample F) :
    (s.explore t).Inv bound := by
  unfold Coordinator.explore
  split_ifs with hwanted
  · exact hs.stop
  · simp only [Bool.and_eq_true, decide_eq_true_eq] at hwanted
    have hroom := hwanted.1.2
    apply hs.spawn
    omega
  · exact hs

private theorem frame_explore (s : Coordinator F) (t : TickSample F) :
    s.Frame (s.explore t) := by
  unfold Coordinator.explore
  split_ifs <;> exact ⟨rfl, rfl, rfl⟩

/-- Growing by at most a factor two, not frozen hard, can be undone. -/
theorem Coordinator.Inv.growTo (hs : s.Inv bound) (hfreeze : s.freeze ≠ .hard)
    {quota : Nat} (hge : s.allowedWorkers ≤ quota) (hle : quota ≤ 2 * s.allowedWorkers)
    (hcap : quota ≤ s.workerCap) {probe : Bool}
    (hprobe : probe = true → s.softProbeTaskUsed < rampSoftProbeTaskBudget) (t : TickSample F) :
    (s.growTo t quota probe).Inv bound := by
  have hone := hs.one_le
  have halive : s.alive ≤ 2 * s.allowedWorkers + 1 := by
    rcases hs.crowd with hle | ⟨hhard, -⟩
    · exact hle
    · exact absurd hhard hfreeze
  refine { hs with
    one_le := hone.trans hge
    le_cap := hcap
    window := fun _ ↦ ⟨hone, hge, hle, halive⟩
    crowd := ?_
    probes := ?_
    thawed := fun _ hhard ↦ absurd hhard hfreeze }
  · left
    change s.alive ≤ 2 * quota + 1
    omega
  · cases probe with
    | false => exact hs.probes
    | true =>
      have hlt := hprobe rfl
      change satU32 (s.softProbeTaskUsed + 1) ≤ rampSoftProbeTaskBudget
      unfold satU32
      omega

private theorem Coordinator.Inv.grow (hs : s.Inv bound) (t : TickSample F) (tail shrunk : Bool) :
    (s.grow t tail shrunk).Inv bound := by
  have hfilled := hs.refill t.work
  have hone := hfilled.one_le
  unfold Coordinator.grow
  dsimp only
  split_ifs with _ hready hexpand
  · exact hfilled
  · obtain ⟨hfreeze, -, hlt, hprobes⟩ := softProbeReady_spec hready
    apply Coordinator.Inv.refill
    apply hfilled.growTo hfreeze
    · omega
    · omega
    · omega
    · exact fun _ ↦ hprobes
  · obtain ⟨hfrozen, hlt⟩ := shouldExpand_spec hexpand
    have hactive : (s.refill t.work).freeze = .active := by simpa using hfrozen
    apply Coordinator.Inv.refill
    apply hfilled.growTo
    · simp [hactive]
    · omega
    · omega
    · omega
    · simp
  · exact hfilled

private theorem grow_keeps (s : Coordinator F) (t : TickSample F) (tail shrunk : Bool) :
    (s.grow t tail shrunk).freeze = s.freeze ∧ (s.grow t tail shrunk).domainCap = s.domainCap := by
  have hfilled := frame_refill s t.work
  have hgrown : ∀ quota probe,
      (((s.refill t.work).growTo t quota probe).refill t.grownWork).freeze = s.freeze ∧
        (((s.refill t.work).growTo t quota probe).refill t.grownWork).domainCap = s.domainCap := by
    intro quota probe
    have hrefilled := frame_refill ((s.refill t.work).growTo t quota probe) t.grownWork
    exact ⟨hrefilled.freeze.trans hfilled.freeze, hrefilled.domainCap.trans hfilled.domainCap⟩
  unfold Coordinator.grow
  dsimp only
  split_ifs
  · exact ⟨hfilled.freeze, hfilled.domainCap⟩
  · exact hgrown _ _
  · exact hgrown _ _
  · exact ⟨hfilled.freeze, hfilled.domainCap⟩

private theorem Coordinator.Inv.abandonWindow (hs : s.Inv bound) (t : TickSample F) (tail : Bool) :
    (s.abandonWindow t tail).Inv bound := by
  unfold Coordinator.abandonWindow
  split_ifs
  · exact { hs with window := by simp, thawed := by simp }
  · exact hs

/-- While ranges are honoured, a hard freeze leaves nothing to evaluate. -/
theorem Coordinator.Inv.settled_of_hard (hs : s.Inv bound) (hok : s.rangeOk = true)
    (hhard : s.freeze = .hard) : s.awaitingRampEval = false := by
  by_contra hawait
  have hunsupported := hs.thawed (by simpa using hawait) hhard
  simp [Coordinator.rangeOk, hunsupported] at hok

private theorem Coordinator.Inv.checkAlive (hs : s.Inv bound) (t : TickSample F) :
    (s.checkAlive t).Inv bound := by
  unfold Coordinator.checkAlive
  split_ifs
  · exact hs.stop
  · exact hs

private theorem frame_checkAlive (s : Coordinator F) (t : TickSample F) :
    s.Frame (s.checkAlive t) := by
  unfold Coordinator.checkAlive
  split_ifs
  · exact frame_stop s
  · exact Coordinator.Frame.refl s

private theorem mayAdapt_rangeOk {t : TickSample F} (h : s.mayAdapt t = true) :
    s.rangeOk = true := by
  simp only [Coordinator.mayAdapt, Bool.and_eq_true] at h
  exact h.2

section Measure

variable [Bps F] {cfg : RampConfig}

private theorem Coordinator.Inv.learnProven (hs : s.Inv bound) (t : TickSample F) :
    (s.learnProven t).Inv bound := by
  unfold Coordinator.learnProven
  split_ifs
  · exact { hs with }
  · exact hs

private theorem frame_learnProven (s : Coordinator F) (t : TickSample F) :
    s.Frame (s.learnProven t) := by
  unfold Coordinator.learnProven
  split_ifs <;> exact ⟨rfl, rfl, rfl⟩

private theorem limit_le (cfg : RampConfig) (cap : Nat) : cfg.limit cap ≤ cap := by
  unfold RampConfig.limit
  split
  · exact Nat.min_le_left _ _
  · exact Nat.le_refl cap

private theorem Coordinator.Inv.uncap (hs : s.Inv bound)
    (hbound : cfg.platform.hintUncapMax ≤ bound)
    (t : TickSample F) : (s.uncap cfg t).Inv bound := by
  unfold Coordinator.uncap
  dsimp only
  split_ifs with hlt
  · have hlifted := (limit_le cfg _).trans (inTaskUncapCeiling_le cfg.platform.hintUncapMax
      (cfg.allowHintUncap && !s.uncapDisabled && s.rejectStrikes = 0) s.domainCap s.workerCap
      s.preGrowWorkers s.allowedWorkers s.preGrowThroughput t.throughput t.remaining)
    have hone := hs.one_le
    have hcap := hs.le_cap
    refine { hs with le_cap := hcap.trans hlt.le, cap_le := ?_, floor := ?_ }
    · exact hlifted.trans (Nat.max_le.mpr ⟨hs.cap_le, hbound⟩)
    · intro floor hfloor
      cases Option.some.inj hfloor
      cases hold : s.uncapFloor with
      | none => exact ⟨hone.trans hcap, hlt.le⟩
      | some old =>
        obtain ⟨hpos, hle⟩ := hs.floor old hold
        exact ⟨hpos, hle.trans hlt.le⟩
  · exact hs

private theorem Coordinator.Inv.settleExpansion (hs : s.Inv bound)
    (hawait : s.awaitingRampEval = true) (hbound : cfg.platform.hintUncapMax ≤ bound)
    (t : TickSample F) (verdict : RampVerdict) :
    (Coordinator.settleExpansion cfg { s with awaitingRampEval := false, probeWindow := false } t
      verdict).Inv bound := by
  cases verdict with
  | improved => exact (hs.settle hawait (Or.inl rfl) s.allowedWorkers s.freeze).uncap hbound t
  | collapse =>
    have hrolled := hs.settle hawait (Or.inr rfl)
      (min s.beneficialScale (max s.preGrowWorkers 1)) .hard
    unfold Coordinator.settleExpansion
    dsimp only
    split_ifs
    · exact hrolled
    · exact { hrolled with }
  | freeze =>
    unfold Coordinator.settleExpansion
    dsimp only
    split_ifs
    · exact hs.settle hawait (Or.inr rfl) _ _
    · exact hs.settle hawait (Or.inl rfl) _ _

private theorem Coordinator.Inv.evalWindow (hs : s.Inv bound)
    (hbound : cfg.platform.hintUncapMax ≤ bound) (t : TickSample F) :
    (s.evalWindow cfg t).Inv bound := by
  unfold Coordinator.evalWindow
  dsimp only
  split_ifs with hawait
  · exact hs.settleProbe hawait _
  · exact hs.settleExpansion hawait hbound t _
  · exact hs

private theorem Coordinator.Inv.verifyShrink (hs : s.Inv bound)
    (hawait : s.awaitingRampEval = false)
    (t : TickSample F) (tail : Bool) : (s.verifyShrink t tail).1.Inv bound := by
  unfold Coordinator.verifyShrink
  split
  · exact hs
  · next watch _ =>
    split_ifs
    · exact { hs with }
    · exact hs
    · dsimp only
      split
      · exact { hs with }
      · exact { hs with }
      · -- the quota rises to what it was, within the ceiling
        have hone := hs.one_le
        have hcap := hs.le_cap
        refine { hs with one_le := ?_, le_cap := ?_, window := ?_, crowd := ?_ }
        · change 1 ≤ max (min watch.preWorkers s.workerCap) s.allowedWorkers
          omega
        · change max (min watch.preWorkers s.workerCap) s.allowedWorkers ≤ s.workerCap
          omega
        · simp [hawait]
        · rcases hs.crowd with hle | ⟨hhard, quota, hquota, hlt, hle⟩
          · left
            change s.alive ≤ 2 * max (min watch.preWorkers s.workerCap) s.allowedWorkers + 1
            omega
          · refine Or.inr ⟨hhard, quota, hquota, hlt, ?_⟩
            change quota ≤ 2 * max (min watch.preWorkers s.workerCap) s.allowedWorkers + 1
            omega

private theorem frame_verifyShrink (s : Coordinator F) (t : TickSample F) (tail : Bool) :
    s.Frame (s.verifyShrink t tail).1 := by
  unfold Coordinator.verifyShrink
  split
  · exact ⟨rfl, rfl, rfl⟩
  · split_ifs
    · exact ⟨rfl, rfl, rfl⟩
    · exact ⟨rfl, rfl, rfl⟩
    · dsimp only
      split <;> exact ⟨rfl, rfl, rfl⟩

private theorem Coordinator.Inv.shrink (hs : s.Inv bound) (hawait : s.awaitingRampEval = false)
    (halive : s.alive = s.allowedWorkers) (t : TickSample F) : (s.shrink t).Inv bound := by
  have hone := hs.one_le
  have hcap := hs.le_cap
  refine { hs with one_le := ?_, le_cap := ?_, window := ?_, crowd := ?_, thawed := ?_ }
  · change 1 ≤ max (s.allowedWorkers / 2) 1
    omega
  · change max (s.allowedWorkers / 2) 1 ≤ s.workerCap
    omega
  · simp [Coordinator.shrink, hawait]
  · left
    change s.alive ≤ 2 * max (s.allowedWorkers / 2) 1 + 1
    omega
  · simp [Coordinator.shrink, hawait]

private theorem Coordinator.Inv.watchPeak (hs : s.Inv bound) (hawait : s.awaitingRampEval = false)
    (t : TickSample F) (tail : Bool) : (s.watchPeak t tail).1.Inv bound := by
  have hpeak : Coordinator.Inv bound { s with peakThroughput := s.peakThroughput * 0.99 } :=
    { hs with }
  unfold Coordinator.watchPeak
  dsimp only
  split_ifs with _ hstrike
  · exact { hs with }
  · simp only [Bool.and_eq_true] at hstrike
    exact hpeak.shrink hawait (shouldShrink_alive hstrike.2).1 t
  · exact { hs with }
  · exact { hs with }

private theorem watchPeak_hard (hhard : s.freeze = .hard) (t : TickSample F) (tail : Bool) :
    (s.watchPeak t tail).1.freeze = .hard := by
  unfold Coordinator.watchPeak
  dsimp only
  split_ifs
  · exact hhard
  · simp [Coordinator.shrink, hhard]
  · exact hhard
  · exact hhard

private theorem watchPeak_domainCap (s : Coordinator F) (t : TickSample F) (tail : Bool) :
    (s.watchPeak t tail).1.domainCap = s.domainCap := by
  unfold Coordinator.watchPeak
  dsimp only
  split_ifs <;> rfl

private theorem uncap_awaiting (cfg : RampConfig) (s : Coordinator F) (t : TickSample F) :
    (s.uncap cfg t).awaitingRampEval = s.awaitingRampEval := by
  unfold Coordinator.uncap
  dsimp only
  split_ifs <;> rfl

private theorem evalWindow_awaiting (cfg : RampConfig) (s : Coordinator F) (t : TickSample F) :
    (s.evalWindow cfg t).awaitingRampEval = false := by
  unfold Coordinator.evalWindow
  dsimp only
  split_ifs with hawait hprobe
  · unfold Coordinator.settleProbe
    dsimp only
    split_ifs <;> rfl
  · cases rampVerdict s.preGrowThroughput t.throughput with
    | improved => exact uncap_awaiting cfg _ t
    | collapse =>
      simp only [Coordinator.settleExpansion]
      split_ifs <;> rfl
    | freeze =>
      simp only [Coordinator.settleExpansion]
      split_ifs <;> rfl
  · simpa using hawait

private theorem verifyShrink_awaiting (s : Coordinator F) (t : TickSample F) (tail : Bool) :
    (s.verifyShrink t tail).1.awaitingRampEval = s.awaitingRampEval := by
  unfold Coordinator.verifyShrink
  split
  · rfl
  · split_ifs
    · rfl
    · rfl
    · dsimp only
      split <;> rfl

private theorem Coordinator.Inv.adapt (hs : s.Inv bound)
    (hbound : cfg.platform.hintUncapMax ≤ bound)
    (t : TickSample F) : (s.adapt cfg t).Inv bound := by
  have hevaluated := (hs.abandonWindow t
    (isTail t.remaining s.workerCap t.totalBytes)).evalWindow hbound t
  have hawait := evalWindow_awaiting cfg
    (s.abandonWindow t (isTail t.remaining s.workerCap t.totalBytes)) t
  apply Coordinator.Inv.grow
  apply Coordinator.Inv.watchPeak
  · exact hevaluated.verifyShrink hawait t _
  · rw [verifyShrink_awaiting, hawait]

private theorem evalWindow_of_settled (hawait : s.awaitingRampEval = false) (cfg : RampConfig)
    (t : TickSample F) : s.evalWindow cfg t = s := by
  simp [Coordinator.evalWindow, hawait]

private theorem Coordinator.Inv.adapt_hard (hs : s.Inv bound) (hok : s.rangeOk = true)
    (hhard : s.freeze = .hard) (cfg : RampConfig) (t : TickSample F) :
    (s.adapt cfg t).freeze = .hard := by
  have hsettled := hs.settled_of_hard hok hhard
  have habandon : ∀ tail, (s.abandonWindow t tail).awaitingRampEval = false ∧
      (s.abandonWindow t tail).freeze = .hard := by
    intro tail
    unfold Coordinator.abandonWindow
    split_ifs
    · exact ⟨rfl, hhard⟩
    · exact ⟨hsettled, hhard⟩
  unfold Coordinator.adapt
  dsimp only
  rw [evalWindow_of_settled (habandon _).1, (grow_keeps _ _ _ _).1]
  apply watchPeak_hard
  rw [(frame_verifyShrink _ _ _).freeze]
  exact (habandon _).2

/-- A tick that may settle a probe does not touch the cap of the domain. -/
theorem adapt_domainCap (cfg : RampConfig) (t : TickSample F)
    (hprobe : s.awaitingRampEval = true → s.probeWindow = true) :
    (s.adapt cfg t).domainCap = s.domainCap := by
  unfold Coordinator.adapt
  dsimp only
  rw [(grow_keeps _ _ _ _).2, watchPeak_domainCap, (frame_verifyShrink _ _ _).domainCap]
  unfold Coordinator.abandonWindow
  split_ifs
  · rw [evalWindow_of_settled rfl]
  · unfold Coordinator.evalWindow
    dsimp only
    split_ifs with hawait hwindow
    · exact settleProbe_domainCap _ _
    · exact absurd (hprobe hawait) hwindow
    · rfl

/-- The state in which a measured tick decides whether to adapt. -/
theorem measure_prefix (hs : s.Inv bound) (t : TickSample F) :
    ∃ u : Coordinator F, u.Inv bound ∧ s.waitSoft.Frame u ∧
      (∀ cfg, s.measure cfg t = if u.mayAdapt t then u.adapt cfg t else u) := by
  have hexplored := hs.waitSoft.explore t
  have hframe := frame_explore s.waitSoft t
  by_cases hrunning : (s.waitSoft.explore t).running = true
  · exact ⟨_, hexplored.learnProven t, hframe.trans (frame_learnProven _ t), fun cfg ↦ by
      simp [Coordinator.measure, hrunning]⟩
  · exact ⟨_, hexplored, hframe, fun cfg ↦ by simp [Coordinator.measure, hrunning]⟩

private theorem Coordinator.Inv.measure (hs : s.Inv bound)
    (hbound : cfg.platform.hintUncapMax ≤ bound)
    (t : TickSample F) : (s.measure cfg t).Inv bound := by
  obtain ⟨u, hu, -, hmeasure⟩ := measure_prefix hs t
  rw [hmeasure]
  split_ifs
  · exact hu.adapt hbound t
  · exact hu

private theorem Coordinator.Inv.measure_hard (hs : s.Inv bound) (hhard : s.freeze = .hard)
    (cfg : RampConfig) (t : TickSample F) : (s.measure cfg t).freeze = .hard := by
  obtain ⟨u, hu, hframe, hmeasure⟩ := measure_prefix hs t
  have huhard : u.freeze = .hard := hframe.freeze.trans (waitSoft_hard hhard)
  rw [hmeasure]
  split_ifs with hmay
  · exact hu.adapt_hard (mayAdapt_rangeOk hmay) huhard cfg t
  · exact huhard

private theorem measure_domainCap (hs : s.Inv bound) (hprobe : s.probeWindow = true)
    (cfg : RampConfig) (t : TickSample F) :
    (s.measure cfg t).domainCap = s.domainCap := by
  obtain ⟨u, -, hframe, hmeasure⟩ := measure_prefix hs t
  obtain ⟨hcap, hwindow⟩ := waitSoft_keeps s
  have hu : u.domainCap = s.domainCap := hframe.domainCap.trans hcap
  rw [hmeasure]
  split_ifs
  · rw [adapt_domainCap cfg t fun _ ↦ hframe.probeWindow.trans (hwindow.trans hprobe), hu]
  · exact hu

/-- What each part of a tick establishes, the tick does. -/
theorem rampTick_induction {P : Coordinator F → Prop} {t : TickSample F}
    (hrevived : P ((s.reconcile t.finished).revive t))
    (hmeasured : P (((s.reconcile t.finished).revive t).measure cfg t))
    (hfilled : P (((s.reconcile t.finished).revive t).refill t.work))
    (hcheck : ∀ u, P u → P (u.checkAlive t)) : P (s.rampTick cfg t) := by
  have hguarded : ∀ u, P u → P (if u.running then u.checkAlive t else u) := by
    intro u hu
    split_ifs
    · exact hcheck u hu
    · exact hu
  unfold Coordinator.rampTick
  dsimp only
  split
  · exact hrevived
  · apply hguarded
    split_ifs
    · exact hmeasured
    · exact hfilled
    · exact hrevived

private theorem Coordinator.Inv.rampTick (hs : s.Inv bound)
    (hbound : cfg.platform.hintUncapMax ≤ bound)
    (t : TickSample F) : (s.rampTick cfg t).Inv bound := by
  have hrevived := (hs.reconcile t.finished).revive t
  apply rampTick_induction
  · exact hrevived
  · exact hrevived.measure hbound t
  · exact hrevived.refill t.work
  · exact fun u hu ↦ hu.checkAlive t

/-- A tick leaves a hard freeze. -/
theorem Coordinator.Inv.rampTick_hard (hs : s.Inv bound) (hhard : s.freeze = .hard)
    (cfg : RampConfig) (t : TickSample F) : (s.rampTick cfg t).freeze = .hard := by
  have hframe := (frame_reconcile s t.finished).trans (frame_revive _ t)
  have hfrozen := hframe.freeze.trans hhard
  apply rampTick_induction (P := fun u ↦ u.freeze = .hard)
  · exact hfrozen
  · exact ((hs.reconcile t.finished).revive t).measure_hard hfrozen cfg t
  · exact (frame_refill _ t.work).freeze.trans hfrozen
  · exact fun u hu ↦ (frame_checkAlive u t).freeze.trans hu

/-- The tick that settles a probe leaves the cap of the domain. -/
theorem Coordinator.Inv.rampTick_domainCap (hs : s.Inv bound)
    (hprobe : s.probeWindow = true) (cfg : RampConfig) (t : TickSample F) :
    (s.rampTick cfg t).domainCap = s.domainCap := by
  have hframe := (frame_reconcile s t.finished).trans (frame_revive _ t)
  have hmeasured := measure_domainCap ((hs.reconcile t.finished).revive t)
    (hframe.probeWindow.trans hprobe) cfg t
  apply rampTick_induction (P := fun u ↦ u.domainCap = s.domainCap)
  · exact hframe.domainCap
  · exact hmeasured.trans hframe.domainCap
  · exact (frame_refill _ t.work).domainCap.trans hframe.domainCap
  · exact fun u hu ↦ (frame_checkAlive u t).domainCap.trans hu

end Measure

/-! ## Worker events -/

/-- The rejection strikes: the ramp is frozen for good and nothing is under evaluation. -/
theorem Coordinator.Inv.strike (hs : s.Inv bound) (f : Failure) {cap quota : Nat}
    {rejectQuota uncapFloor : Option Nat} {uncapDisabled serialMode : Bool}
    {domainCap : Option Int} (hone : 1 ≤ quota) (hquota : quota ≤ cap) (hcap : cap ≤ bound)
    (hfloor : ∀ floor, uncapFloor = some floor → 1 ≤ floor ∧ floor ≤ cap)
    (hcrowd : s.alive ≤ 2 * quota + 1 ∨ ∃ q, rejectQuota = some q ∧ q < s.alive ∧
      q ≤ 2 * quota + 1) :
    Coordinator.Inv bound { s.strike f with
      workerCap := cap
      allowedWorkers := quota
      rejectQuota := rejectQuota
      uncapFloor := uncapFloor
      uncapDisabled := uncapDisabled
      serialMode := serialMode
      domainCap := domainCap } where
  one_le := hone
  le_cap := hquota
  cap_le := hcap
  floor := hfloor
  window := by simp [Coordinator.strike]
  crowd := by
    rcases hcrowd with hle | ⟨q, hq, hlt, hle⟩
    · exact Or.inl hle
    · exact Or.inr ⟨rfl, q, hq, hlt, hle⟩
  probes := hs.probes
  thawed := by simp [Coordinator.strike]
  verdict := hs.verdict

private theorem overshootFloor_spec {f : Failure} {floor : Nat}
    (h : s.overshootFloor f = some floor) : s.uncapFloor = some floor ∧ floor < s.alive := by
  simp only [Coordinator.overshootFloor, Option.filter_eq_some_iff, Bool.and_eq_true,
    decide_eq_true_eq] at h
  exact ⟨h.1, h.2.2⟩

/-- A first strike finds no more than twice the quota and one workers. -/
theorem Coordinator.Inv.crowd_of_strike (hs : s.Inv bound) {f : Failure}
    (hsheds : f.transientRange = true → s.serialMode = false → s.rejectStrikes = 0 →
      s.rejectQuota.any (· < s.alive) = true → s.alive ≤ 2 * s.allowedWorkers + 1)
    (hexcess : s.sheddingExcess f = false) (hserial : s.serialMode = false)
    (hstrikes : s.rejectStrikes = 0) : s.alive ≤ 2 * s.allowedWorkers + 1 := by
  rcases hs.crowd with hle | ⟨-, quota, hquota, hlt, -⟩
  · exact hle
  · have hany : s.rejectQuota.any (· < s.alive) = true := by simp [hquota, hlt]
    apply hsheds _ hserial hstrikes hany
    simpa [Coordinator.sheddingExcess, hserial, hany] using hexcess

/-- Halving the live workers at the first strike demotes. -/
theorem Coordinator.Inv.halved (hs : s.Inv bound) {f : Failure}
    (hsheds : f.transientRange = true → s.serialMode = false → s.rejectStrikes = 0 →
      s.rejectQuota.any (· < s.alive) = true → s.alive ≤ 2 * s.allowedWorkers + 1)
    (hnone : s.overshootFloor f = none) (hexcess : s.sheddingExcess f = false)
    (hhalve : (!s.serialMode && (s.strike f).rejectStrikes = 1 && 2 < s.alive) = true) :
    1 ≤ max (s.alive / 2) 1 ∧ max (s.alive / 2) 1 ≤ s.allowedWorkers ∧
      s.alive ≤ 2 * max (s.alive / 2) 1 + 1 := by
  simp only [Coordinator.strike, hexcess, hnone, Bool.and_eq_true, Bool.not_eq_true',
    decide_eq_true_eq] at hhalve
  obtain ⟨⟨hserial, hstrikes⟩, hmany⟩ := hhalve
  have hfirst : s.rejectStrikes = 0 := by simpa using hstrikes
  have halive := hs.crowd_of_strike hsheds hexcess hserial hfirst
  omega

/-- A demotion that finds a quota it can lower keeps the invariant and does not raise it. -/
theorem Coordinator.Inv.demote (hs : s.Inv bound) {f : Failure}
    (hfloor : ∀ floor ∈ s.overshootFloor f, floor ≤ s.allowedWorkers)
    (hsheds : f.transientRange = true → s.serialMode = false → s.rejectStrikes = 0 →
      s.rejectQuota.any (· < s.alive) = true → s.alive ≤ 2 * s.allowedWorkers + 1) :
    (s.demote f).Inv bound ∧ (s.demote f).allowedWorkers ≤ s.allowedWorkers := by
  have hone := hs.one_le
  have hcap := hs.le_cap
  have hbound := hs.cap_le
  have hcrowd : s.alive ≤ 2 * s.allowedWorkers + 1 ∨ ∃ q, s.rejectQuota = some q ∧
      q < s.alive ∧ q ≤ 2 * s.allowedWorkers + 1 := by
    rcases hs.crowd with hle | ⟨-, hdraining⟩
    · exact Or.inl hle
    · exact Or.inr hdraining
  unfold Coordinator.demote
  dsimp only
  split
  · next floor hover =>
    obtain ⟨huncap, halive⟩ := overshootFloor_spec hover
    have hle := hfloor floor hover
    obtain ⟨hpos, -⟩ := hs.floor floor huncap
    refine ⟨hs.strike f hpos (Nat.le_refl floor) (by omega) (by simp) ?_, hle⟩
    by_cases hfits : s.alive ≤ 2 * floor + 1
    · exact Or.inl hfits
    · exact Or.inr ⟨floor, rfl, halive, by omega⟩
  · next hnone =>
    split_ifs with hexcess hhalve
    · exact ⟨hs.strike f hone hcap hbound hs.floor hcrowd, Nat.le_refl _⟩
    -- halving the live workers: at most the quota, by the crowd bound
    · obtain ⟨hone', hle, hfits⟩ := hs.halved hsheds hnone (by simpa using hexcess) hhalve
      exact ⟨hs.strike f hone' (hle.trans hcap) hbound hs.floor (Or.inl hfits), hle⟩
    · obtain ⟨hone', hle, hfits⟩ := hs.halved hsheds hnone (by simpa using hexcess) hhalve
      exact ⟨hs.strike f hone' (hle.trans hcap) hbound hs.floor (Or.inl hfits), hle⟩
    · exact ⟨hs.strike f hone hcap hbound hs.floor hcrowd, Nat.le_refl _⟩
    · exact ⟨hs.strike f hone hcap hbound hs.floor hcrowd, Nat.le_refl _⟩
    · exact ⟨hs.strike f hone hcap hbound hs.floor hcrowd, Nat.le_refl _⟩

private theorem Coordinator.Inv.degrade (hs : s.Inv bound) {f : Failure}
    (hfloor : ∀ floor ∈ s.overshootFloor f, floor ≤ s.allowedWorkers)
    (hsheds : f.transientRange = true → s.serialMode = false → s.rejectStrikes = 0 →
      s.rejectQuota.any (· < s.alive) = true → s.alive ≤ 2 * s.allowedWorkers + 1) :
    (s.degrade f).Inv bound ∧ (s.degrade f).allowedWorkers ≤ s.allowedWorkers := by
  obtain ⟨hdemoted, hle⟩ := hs.demote hfloor hsheds
  have hhostile : Coordinator.Inv bound { s.demote f with
      reconnectHostile := (s.demote f).reconnectHostile || f.absorbed } := { hdemoted with }
  have hclosed := hhostile.closeSlot f.worker
  unfold Coordinator.degrade
  dsimp only
  split_ifs
  · exact ⟨hclosed.stop, hle⟩
  · exact ⟨hclosed, hle⟩

private theorem demote_freeze (s : Coordinator F) (f : Failure) :
    (s.demote f).freeze = .hard := by
  unfold Coordinator.demote
  dsimp only
  split
  · rfl
  · split_ifs <;> rfl

private theorem degrade_freeze (s : Coordinator F) (f : Failure) :
    (s.degrade f).freeze = .hard := by
  unfold Coordinator.degrade
  dsimp only
  split_ifs
  · exact demote_freeze s f
  · exact demote_freeze s f

/-- Handling a failure keeps the invariant, keeps a hard freeze and does not raise the quota. -/
theorem Coordinator.Inv.handleFailed (hs : s.Inv bound) {f : Failure}
    (hsheds : Op.Sheds s (.failed f : Op F)) :
    (s.handleFailed f).Inv bound ∧ (s.freeze = .hard → (s.handleFailed f).freeze = .hard) ∧
      (s.handleFailed f).allowedWorkers ≤ s.allowedWorkers := by
  unfold Coordinator.handleFailed
  cases harm : s.failureArm f with
  | redispatch =>
    dsimp only
    split_ifs
    · exact ⟨hs.stop, id, Nat.le_refl _⟩
    · exact ⟨hs, id, Nat.le_refl _⟩
    · exact ⟨hs.closeSlot _, id, Nat.le_refl _⟩
  | isolate =>
    have hcounted : Coordinator.Inv bound { s with
        transientRequeues := Function.update s.transientRequeues f.segIndex
          (s.transientRequeues f.segIndex + 1) } := { hs with }
    dsimp only
    split_ifs
    · exact ⟨hcounted.stop, id, Nat.le_refl _⟩
    · exact ⟨hcounted.closeSlot _, id, Nat.le_refl _⟩
  | revive =>
    have hclosed := hs.closeSlot f.worker
    refine ⟨{ hclosed with window := by simp, crowd := ?_, thawed := by simp }, fun _ ↦ rfl,
      Nat.le_refl _⟩
    rcases hclosed.crowd with hle | ⟨-, hdraining⟩
    · exact Or.inl hle
    · exact Or.inr ⟨rfl, hdraining⟩
  | degrade =>
    obtain ⟨hfloor, htransient⟩ := hsheds harm
    obtain ⟨hdegraded, hle⟩ := hs.degrade hfloor htransient
    exact ⟨hdegraded, fun _ ↦ degrade_freeze s f, hle⟩
  | fatal => exact ⟨hs.stop, id, Nat.le_refl _⟩

private theorem Coordinator.Inv.handover (hs : s.Inv bound) (next : Bool) (worker : Nat) :
    (if next then s else s.closeSlot worker).Inv bound ∧
      s.Frame (if next then s else s.closeSlot worker) := by
  split_ifs
  · exact ⟨hs, Coordinator.Frame.refl s⟩
  · exact ⟨hs.closeSlot worker, frame_closeSlot s worker⟩

private theorem Coordinator.Inv.handleDone (hs : s.Inv bound) (h : Handover) :
    (s.handleDone h).Inv bound ∧ s.Frame (s.handleDone h) := by
  obtain ⟨hnext, hframe⟩ := hs.handover (h.workFound &&
    (if s.serialMode then !h.otherActive else s.alive ≤ s.allowedWorkers)) h.worker
  unfold Coordinator.handleDone
  dsimp only
  by_cases hbroken : h.broken = true
  · rw [if_pos hbroken]
    exact ⟨hs.stop, frame_stop s⟩
  · rw [if_neg hbroken]
    by_cases hdone : h.allDone = true
    · rw [if_pos hdone]
      exact ⟨hnext.stop, hframe.trans (frame_stop _)⟩
    · rw [if_neg hdone]
      exact ⟨hnext, hframe⟩

private theorem Coordinator.Inv.handlePreempted (hs : s.Inv bound) (h : Handover) :
    (s.handlePreempted h).Inv bound ∧ s.Frame (s.handlePreempted h) := by
  unfold Coordinator.handlePreempted
  dsimp only
  by_cases hover : (h.allDone || h.broken) = true
  · rw [if_pos hover]
    exact ⟨hs.stop, frame_stop s⟩
  · rw [if_neg hover]
    exact hs.handover _ h.worker

private theorem Coordinator.Inv.handleRangeVerdict (hs : s.Inv bound) :
    s.handleRangeVerdict.Inv bound ∧
      (s.freeze = .hard → s.handleRangeVerdict.freeze = .hard) := by
  unfold Coordinator.handleRangeVerdict
  split
  · exact ⟨{ hs with verdict := by simp }, id⟩
  · next hevent =>
    refine ⟨{ hs with crowd := ?_, thawed := fun _ _ ↦ hs.verdict hevent, verdict := by simp },
      fun _ ↦ rfl⟩
    rcases hs.crowd with hle | ⟨-, hdraining⟩
    · exact Or.inl hle
    · exact Or.inr ⟨rfl, hdraining⟩
  · exact ⟨hs, id⟩

private theorem Coordinator.Inv.learnRange (hs : s.Inv bound) (supportsRange : Bool) :
    (s.learnRange supportsRange).Inv bound ∧ s.Frame (s.learnRange supportsRange) := by
  unfold Coordinator.learnRange
  by_cases hunknown : s.rangeVerdict = .unknown
  · rw [if_pos hunknown]
    refine ⟨{ hs with thawed := ?_, verdict := ?_ }, rfl, rfl, rfl⟩
    · intro hawait hhard
      have hunsupported := hs.thawed hawait hhard
      rw [hunknown] at hunsupported
      cases hunsupported
    · intro hevent
      cases supportsRange with
      | true => cases hevent
      | false => rfl
  · rw [if_neg hunknown]
    exact ⟨hs, Coordinator.Frame.refl s⟩

/-! ## Runs -/

section Runs

variable [Bps F] {cfg : RampConfig}

/-- What one step of the loop keeps. -/
theorem Coordinator.Inv.step (hs : s.Inv bound)
    (hbound : cfg.platform.hintUncapMax ≤ bound) {op : Op F} (hsheds : op.Sheds s) :
    (s.step cfg op).Inv bound ∧ (s.freeze = .hard → (s.step cfg op).freeze = .hard) := by
  unfold Coordinator.step
  split_ifs
  · cases op with
    | cancel => exact ⟨hs.stop, id⟩
    | channelClosed => exact ⟨{ hs with }, id⟩
    | done h =>
      obtain ⟨hinv, hframe⟩ := hs.handleDone h
      exact ⟨hinv, hframe.freeze.trans⟩
    | failed f =>
      obtain ⟨hinv, hhard, -⟩ := hs.handleFailed hsheds
      exact ⟨hinv, hhard⟩
    | preempted h =>
      obtain ⟨hinv, hframe⟩ := hs.handlePreempted h
      exact ⟨hinv, hframe.freeze.trans⟩
    | rangeVerdict => exact hs.handleRangeVerdict
    | tick t => exact ⟨hs.rampTick hbound t, fun hhard ↦ hs.rampTick_hard hhard cfg t⟩
    | learnRange supportsRange =>
      obtain ⟨hinv, hframe⟩ := hs.learnRange supportsRange
      exact ⟨hinv, hframe.freeze.trans⟩
    | sensed => exact ⟨{ hs with }, id⟩
    | domainCap cap => exact ⟨{ hs with }, id⟩
  · exact ⟨hs, id⟩

private theorem one_le_limit {cap : Nat} (h : 1 ≤ cap) (cfg : RampConfig) :
    1 ≤ cfg.limit cap := by
  unfold RampConfig.limit
  split <;> omega

private theorem one_le_workerCap (plan : StartPlan) (cfg : RampConfig) :
    1 ≤ plan.workerCap cfg := by
  unfold StartPlan.workerCap
  apply one_le_limit
  refine Nat.le_trans ?_ (le_hintUncapCeiling _ _ _ _ _)
  split <;> omega

private theorem StartPlan.inv_start (plan : StartPlan) (cfg : RampConfig)
    (hbound : plan.workerCap cfg ≤ bound) : (plan.start cfg : Coordinator F).Inv bound := by
  obtain ⟨hone, hle⟩ := initialAllowedWorkers_bounds (one_le_workerCap plan cfg) cfg.domainHint
  exact
    { one_le := hone
      le_cap := hle
      cap_le := hbound
      floor := by simp [StartPlan.start]
      window := by simp [StartPlan.start]
      crowd := by
        left
        simp only [StartPlan.start, Coordinator.alive, List.count_replicate_self]
        split_ifs <;> omega
      probes := Nat.zero_le _
      thawed := by simp [StartPlan.start]
      verdict := by simp [StartPlan.start] }

/-- The quota is safe along a run: it stays within the ceiling and the ceiling within its
bound, a hard freeze is final, probes stay in their budget, no rejection raises the quota, and a
probe that does not pay off leaves the learned cap of the domain alone. -/
def QuotaSafe (cfg : RampConfig) (plan : StartPlan) (ops : List (Op F)) : Prop :=
  ∀ n, let s := run (Coordinator.step cfg) (plan.start cfg) (ops.take n)
    (1 ≤ s.allowedWorkers ∧ s.allowedWorkers ≤ s.workerCap ∧
      s.workerCap ≤ max (plan.workerCap cfg) cfg.platform.hintUncapMax) ∧
    (∀ m ≤ n, (run (Coordinator.step cfg) (plan.start cfg : Coordinator F)
      (ops.take m)).freeze = .hard → s.freeze = .hard) ∧
    s.softProbeTaskUsed ≤ rampSoftProbeTaskBudget ∧
    (∀ f, ops[n]? = some (.failed f) → f.IsRejection →
      (s.step cfg (.failed f)).allowedWorkers ≤ s.allowedWorkers) ∧
    ∀ t, ops[n]? = some (.tick t) → s.awaitingRampEval = true → s.probeWindow = true →
      rampVerdict s.preGrowThroughput t.throughput ≠ .improved →
      (s.step cfg (.tick t)).domainCap = s.domainCap

/-- In a run whose rejections find a quota they can lower, the quota is safe. -/
theorem quotaSafe_of_sheds (cfg : RampConfig) (plan : StartPlan) (ops : List (Op F))
    (h : EveryStep (Coordinator.step cfg) (fun s op ↦ op.Sheds s) (plan.start cfg) ops) :
    QuotaSafe cfg plan ops := by
  intro n
  have hstep : ∀ (s : Coordinator F) (op : Op F),
      s.Inv (max (plan.workerCap cfg) cfg.platform.hintUncapMax) → op.Sheds s →
      (s.step cfg op).Inv (max (plan.workerCap cfg) cfg.platform.hintUncapMax) :=
    fun s op hs hsheds ↦ (hs.step (Nat.le_max_right _ _) hsheds).1
  have hstart : (plan.start cfg : Coordinator F).Inv
      (max (plan.workerCap cfg) cfg.platform.hintUncapMax) :=
    plan.inv_start cfg (Nat.le_max_left _ _)
  have hinv := run_invariant hstep hstart (h.take n)
  refine ⟨⟨hinv.one_le, hinv.le_cap, hinv.cap_le⟩, ?_, hinv.probes, ?_, ?_⟩
  · intro m hmn
    exact run_related_take (R := fun s s' : Coordinator F ↦ s.freeze = .hard → s'.freeze = .hard)
      (fun _ ↦ id) (fun h h' hhard ↦ h' (h hhard)) hstep
      (fun s op hs hsheds ↦ (hs.step (Nat.le_max_right _ _) hsheds).2) hstart h hmn
  · intro f hf _
    unfold Coordinator.step
    split_ifs
    · exact (hinv.handleFailed (h.at hf)).2.2
    · exact Nat.le_refl _
  · intro t _ _ hprobe _
    unfold Coordinator.step
    split_ifs
    · exact hinv.rampTick_domainCap hprobe cfg t
    · rfl

end Runs

/-! ## A run with an overshoot -/

/-- A desktop build that may lift the ceiling by itself. -/
def desktopAuto : RampConfig := ⟨.desktop, true, none, none⟩

/-- A fresh task of sixteen segments on a server known to honour ranges. -/
def sixteenSegments : StartPlan := ⟨16, none, 16, true, false⟩

/-- A full window of the given throughput in a large task with enough work. -/
def fullWindow (throughput : ℚ) : Op ℚ := .tick
  { finished := []
    reviveDue := false
    reviveWork := ⟨0, false⟩
    fullWindow := true
    throughput := throughput
    bytes := 10 ^ 6
    totalBytes := 10 ^ 10
    allDone := false
    exploreWanted := false
    exploreWork := ⟨0, false⟩
    migrating := false
    alternatesUsed := false
    work := ⟨64, false⟩
    grownWork := ⟨64, false⟩ }

/-- The request of one worker is rejected while the others transfer. -/
def rejected (worker : Nat) (error : DownloadError) : Op ℚ := .failed
  { worker := worker
    segIndex := worker
    error := error
    retriable := false
    anyData := true
    otherInFlight := true
    activeResponse := true
    anyActive := true
    allDone := false
    redispatched := false
    absorbed := false
    broken := false }

/-- Four windows lift the ceiling from 16 over 32 to 64; then the server rejects with 429. -/
def overshoot : List (Op ℚ) :=
  [fullWindow 1000, fullWindow 8000, fullWindow 16000, fullWindow 32000,
    rejected 0 (.status 429)]

/-- A run that overshoots and sheds again. -/
theorem quotaSafe_overshoot :
    EveryStep (Coordinator.step desktopAuto) (fun s op ↦ op.Sheds s)
      (sixteenSegments.start desktopAuto) overshoot ∧
    QuotaSafe desktopAuto sixteenSegments overshoot := by
  have h : EveryStep (Coordinator.step desktopAuto) (fun s op ↦ op.Sheds s)
      (sixteenSegments.start desktopAuto) overshoot := by decide +kernel
  exact ⟨h, quotaSafe_of_sheds desktopAuto sixteenSegments overshoot h⟩

/-- A full answer that follows while 63 connections drain to the quota of 16 sets the quota to
31, above the ceiling of 16. -/
theorem not_quotaSafe_after_overshoot :
    ¬QuotaSafe desktopAuto sixteenSegments (overshoot ++ [rejected 1 .rangeNotSupported]) := by
  intro h
  have hquota := (h 6).1.2.1
  revert hquota
  decide +kernel

end Engine.Ramp
