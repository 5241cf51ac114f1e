import FluxDown.Base.Chunks
import FluxDown.Base.Run
import FluxDown.Base.Saturating

/-!
# The speed curve of a download

Library `Engine`. Each second of a download adds its rate to a bucket; a full bucket becomes a
point, and when the points are as many as allowed, neighbours are joined and the buckets become
twice as wide. The curve covers every second of the download, its totals are exact, and each point
is near the average of the rates it stands for, also after the curve was stored and read back.
-/

namespace Engine

open Base

/-- The points a curve may have (`src/native/engine/src/speed_history.rs:19–20`). -/
def speedHistoryMaxPoints : Nat := 240

/-- The curve and the totals of a task (`speed_history.rs:40–71`). -/
structure SpeedHistory where
  bucketSecs : Nat := 1
  samples : List Int := []
  pendingSum : Int := 0
  pendingSecs : Nat := 0
  activeSecs : Int := 0
  transferredBytes : Int := 0
  peakBps : Int := 0
deriving DecidableEq

namespace SpeedHistory

/-- The average of a pair, or of a single point (`speed_history.rs:106–109`). -/
def mean (pair : List Int) : Int := (pair.foldl saturatingAdd 0).tdiv pair.length

/-- Join neighbours while there are too many points (`speed_history.rs:101–113`). -/
def compact (history : SpeedHistory) : SpeedHistory :=
  if speedHistoryMaxPoints ≤ history.samples.length then
    compact { history with
      samples := (chunks 2 history.samples).map mean
      bucketSecs := min (history.bucketSecs * 2) maxU32 }
  else history
termination_by history.samples.length
decreasing_by
  simp only [speedHistoryMaxPoints, List.length_map, length_chunks] at *
  omega

/-- Make a point of a full bucket (`speed_history.rs:81–87, 119–124`). -/
def closeBucket (history : SpeedHistory) : SpeedHistory :=
  if history.bucketSecs ≤ history.pendingSecs then
    compact { history with
      samples := history.samples ++ [history.pendingSum.tdiv history.pendingSecs]
      pendingSum := 0
      pendingSecs := 0 }
  else history

/-- Record the rate of a second (`speed_history.rs:73–88`). -/
def pushSecond (history : SpeedHistory) (bps : Int) : SpeedHistory :=
  let bps := max bps 0
  closeBucket { history with
    activeSecs := saturatingAdd history.activeSecs 1
    transferredBytes := saturatingAdd history.transferredBytes bps
    peakBps := max history.peakBps bps
    pendingSum := saturatingAdd history.pendingSum bps
    pendingSecs := history.pendingSecs + 1 }

/-- Repair what was read (`speed_history.rs:115–126`). -/
def normalized (history : SpeedHistory) : SpeedHistory :=
  closeBucket (compact { history with bucketSecs := max history.bucketSecs 1 })

/-- The text of the points, written and read by the library for JSON. -/
structure SampleCodec where
  toString : List Int → Option String
  fromStr : String → Option (List Int)

/-- Points that fit their type are read back as they were written. -/
def SampleCodec.RoundTrips (codec : SampleCodec) : Prop :=
  ∀ samples : List Int, (∀ p ∈ samples, -2 ^ 63 ≤ p ∧ p < 2 ^ 63) →
    (codec.toString samples).bind codec.fromStr = some samples

/-- The row of a task (`speed_history.rs:261–286`). -/
structure Row where
  bucketSecs : Int
  samples : String
  pendingSum : Int
  pendingSecs : Int
  activeSecs : Int
  transferredBytes : Int
  peakBps : Int

/-- The row that is written (`speed_history.rs:260–288`). -/
def save (codec : SampleCodec) (history : SpeedHistory) : Option Row :=
  (codec.toString history.samples).map fun samples ↦
    { bucketSecs := history.bucketSecs
      samples
      pendingSum := history.pendingSum
      pendingSecs := history.pendingSecs
      activeSecs := history.activeSecs
      transferredBytes := history.transferredBytes
      peakBps := history.peakBps }

/-- A number of 32 bits, the largest one where it does not fit. -/
def toU32 (n : Int) : Nat := if 0 ≤ n ∧ n ≤ maxU32 then n.toNat else maxU32

/-- The history that is read (`speed_history.rs:230–258`). -/
def load (codec : SampleCodec) (row : Row) : Option SpeedHistory :=
  (codec.fromStr row.samples).map fun samples ↦
    normalized
      { bucketSecs := toU32 row.bucketSecs
        samples
        pendingSum := row.pendingSum
        pendingSecs := toU32 (max row.pendingSecs 0)
        activeSecs := row.activeSecs
        transferredBytes := row.transferredBytes
        peakBps := row.peakBps }

/-- A second of the download, or a stop and a new start. -/
inductive Op where
  | push (bps : Int)
  | reload
deriving DecidableEq

/-- One operation; where the row cannot be read, the history begins anew
(`speed_history.rs:188–195`). -/
def step (codec : SampleCodec) (history : SpeedHistory) : Op → SpeedHistory
  | .push bps => history.pushSecond bps
  | .reload => ((save codec history).bind (load codec)).getD {}

/-- No counter stops at the end of its type. -/
def Exact (history : SpeedHistory) : Op → Prop
  | .push bps =>
    saturatingAdd history.activeSecs 1 = history.activeSecs + 1 ∧
      saturatingAdd history.transferredBytes (max bps 0) =
        history.transferredBytes + max bps 0 ∧
      saturatingAdd history.pendingSum (max bps 0) = history.pendingSum + max bps 0 ∧
      (history.pendingSecs + 1 = history.bucketSecs →
        history.samples.length + 1 = speedHistoryMaxPoints → history.bucketSecs * 2 ≤ maxU32)
  | .reload => True

instance (history : SpeedHistory) : (op : Op) → Decidable (history.Exact op)
  | .push _ => inferInstanceAs (Decidable (_ ∧ _))
  | .reload => inferInstanceAs (Decidable True)

/-- The rates that were recorded, negative ones as zero. -/
def rates (ops : List Op) : List Int :=
  ops.filterMap fun
    | .push bps => some (max bps 0)
    | .reload => none

/-- The rates of a bucket. -/
def bucket (rates : List Int) (width i : Nat) : List Int := (rates.drop (width * i)).take width

/-! ## One point -/

/-- A point is below the average of its rates, by less than one and the number of times it was
joined. -/
structure Near (joined : Nat) (rates : List Int) (width : Nat) (point : Int) : Prop where
  nonneg : 0 ≤ point
  le : point * width ≤ rates.sum
  lt : rates.sum < (point + 1 + joined) * width

/-- The average of a bucket. -/
theorem near_tdiv {rates : List Int} {width : Nat} (joined : Nat) (hwidth : 0 < width)
    (hnonneg : 0 ≤ rates.sum) : Near joined rates width (rates.sum.tdiv width) := by
  have hpos : (0 : Int) < width := by omega
  rw [Int.tdiv_eq_ediv_of_nonneg hnonneg]
  have hle := Int.ediv_mul_le rates.sum (ne_of_gt hpos)
  have hlt := Int.lt_ediv_add_one_mul_self rates.sum hpos
  have hmore : 0 ≤ (joined : Int) * width := mul_nonneg (by omega) hpos.le
  exact
    { nonneg := Int.ediv_nonneg hnonneg hpos.le
      le := hle
      lt := by linarith }

/-- Two points joined. -/
theorem Near.join {joined width : Nat} {first second : List Int} {p q : Int}
    (hp : Near joined first width p) (hq : Near joined second width q)
    (hfit : first.sum + second.sum < 2 ^ 63) (hwidth : 0 < width) :
    Near (joined + 1) (first ++ second) (width * 2) (mean [p, q]) := by
  have hpos : (1 : Int) ≤ width := by omega
  have hsum : (p + q) * width ≤ first.sum + second.sum := by linarith [hp.le, hq.le]
  have hsmall : p + q ≤ (p + q) * width :=
    le_mul_of_one_le_right (add_nonneg hp.nonneg hq.nonneg) hpos
  have hmean : mean [p, q] = (p + q) / 2 := by
    have hfirst : saturatingAdd 0 p = p := by
      unfold saturatingAdd clampI64
      have := hp.nonneg
      have := hq.nonneg
      omega
    have hboth : saturatingAdd p q = p + q := by
      unfold saturatingAdd clampI64
      have := hp.nonneg
      have := hq.nonneg
      omega
    show ((saturatingAdd (saturatingAdd 0 p) q).tdiv 2) = _
    rw [hfirst, hboth, Int.tdiv_eq_ediv_of_nonneg (add_nonneg hp.nonneg hq.nonneg)]
  have hle : 2 * ((p + q) / 2) ≤ p + q := by omega
  have hlt : p + q ≤ 2 * ((p + q) / 2) + 1 := by omega
  rw [hmean]
  refine ⟨by have := hp.nonneg; have := hq.nonneg; omega, ?_, ?_⟩
  · rw [List.sum_append]
    push_cast
    have := mul_le_mul_of_nonneg_right hle (show (0 : Int) ≤ width by omega)
    linarith
  · rw [List.sum_append]
    push_cast
    have := mul_le_mul_of_nonneg_right hlt (show (0 : Int) ≤ width by omega)
    linarith [hp.lt, hq.lt]

/-! ## The whole curve -/

/-- Each point is near the average of its bucket. -/
def Curve (joined : Nat) (rates : List Int) (width : Nat) (points : List Int) : Prop :=
  ∀ i p, points[i]? = some p → Near joined (bucket rates width i) width p

private theorem bucket_append {rates : List Int} {width i : Nat} (more : List Int)
    (h : width * (i + 1) ≤ rates.length) : bucket (rates ++ more) width i = bucket rates width i := by
  have hnext : width * (i + 1) = width * i + width := by ring
  unfold bucket
  rw [List.drop_append_of_le_length (by omega), List.take_append_of_le_length]
  rw [List.length_drop]
  omega

private theorem bucket_join (rates : List Int) (width i : Nat) :
    bucket rates (width * 2) i = bucket rates width (2 * i) ++ bucket rates width (2 * i + 1) := by
  unfold bucket
  rw [show width * 2 * i = width * (2 * i) by ring, show width * 2 = width + width by ring,
    List.take_add, List.drop_drop, show width * (2 * i) + width = width * (2 * i + 1) by ring]

private theorem sum_bucket_le {rates : List Int} (hnonneg : ∀ r ∈ rates, 0 ≤ r) (width i : Nat) :
    0 ≤ (bucket rates width i).sum ∧ (bucket rates width i).sum ≤ rates.sum := by
  have hpart : ∀ l : List Int, (∀ r ∈ l, 0 ≤ r) → 0 ≤ l.sum := fun l ↦ List.sum_nonneg
  have hfirst := List.sum_take_add_sum_drop rates (width * i)
  have hsecond := List.sum_take_add_sum_drop (rates.drop (width * i)) width
  have hbefore := hpart (rates.take (width * i)) fun r hr ↦ hnonneg r (List.mem_of_mem_take hr)
  have hafter := hpart ((rates.drop (width * i)).drop width) fun r hr ↦
    hnonneg r (List.mem_of_mem_drop (List.mem_of_mem_drop hr))
  refine ⟨hpart _ fun r hr ↦ hnonneg r (List.mem_of_mem_drop (List.mem_of_mem_take hr)), ?_⟩
  unfold bucket
  omega

/-- Joined in pairs, the points of a curve are a curve of buckets twice as wide. -/
theorem Curve.join {joined width : Nat} {rates points : List Int}
    (h : Curve joined rates width points) (hnonneg : ∀ r ∈ rates, 0 ≤ r)
    (hfit : rates.sum < 2 ^ 63) (hwidth : 0 < width) (heven : points.length % 2 = 0) :
    Curve (joined + 1) rates (width * 2) ((chunks 2 points).map mean) := by
  intro i p hp
  rw [List.getElem?_map] at hp
  obtain ⟨pair, hpair, rfl⟩ := Option.map_eq_some_iff.mp hp
  have hlt := (List.getElem?_eq_some_iff.mp hpair).1
  rw [length_chunks] at hlt
  rw [getElem?_chunks (by decide) (by omega)] at hpair
  have hfirst := List.getElem?_eq_getElem (show 2 * i < points.length by omega)
  have hsecond := List.getElem?_eq_getElem (show 2 * i + 1 < points.length by omega)
  have htake : (points.drop (2 * i)).take 2 = [points[2 * i], points[2 * i + 1]] := by
    apply List.ext_getElem?
    intro k
    match k with
    | 0 => simp
    | 1 => simp
    | k + 2 => simp
  rw [← Option.some.inj hpair, htake, bucket_join]
  apply (h _ _ hfirst).join (h _ _ hsecond) _ hwidth
  have hboth := (sum_bucket_le hnonneg (width * 2) i).2
  rw [bucket_join, List.sum_append] at hboth
  omega

/-- A history with at most so many points covers the rates recorded. -/
structure Covers (most : Nat) (rates : List Int) (history : SpeedHistory) : Prop where
  nonneg : ∀ r ∈ rates, 0 ≤ r
  width : history.bucketSecs = 2 ^ history.bucketSecs.log2
  fits : history.bucketSecs ≤ maxU32
  bounded : history.samples.length ≤ most
  pending : history.pendingSecs < history.bucketSecs
  covered : history.bucketSecs * history.samples.length + history.pendingSecs = rates.length
  active : history.activeSecs = rates.length
  active_fits : history.activeSecs < 2 ^ 63
  pendingSum :
    history.pendingSum = (rates.drop (history.bucketSecs * history.samples.length)).sum
  transferred : history.transferredBytes = rates.sum
  transferred_fits : history.transferredBytes < 2 ^ 63
  peak : history.peakBps = rates.foldl max 0
  curve : Curve history.bucketSecs.log2 rates history.bucketSecs history.samples

namespace Covers

variable {recorded : List Int} {history : SpeedHistory}

private theorem empty : Covers 239 [] {} where
  nonneg := by simp
  width := by decide
  fits := by decide
  bounded := by decide
  pending := by decide
  covered := rfl
  active := rfl
  active_fits := by decide
  pendingSum := rfl
  transferred := rfl
  transferred_fits := by decide
  peak := rfl
  curve := by
    intro i p hp
    simp at hp

private theorem compact_eq (h : Covers 239 recorded history) : history.compact = history := by
  have hbounded := h.bounded
  rw [SpeedHistory.compact, if_neg]
  unfold speedHistoryMaxPoints
  omega

/-- What is read back is the history that was written. -/
theorem normalized_eq (h : Covers 239 recorded history) : history.normalized = history := by
  have hpending := h.pending
  have hone : ({ history with bucketSecs := max history.bucketSecs 1 } : SpeedHistory) = history := by
    rw [Nat.max_eq_left (by omega)]
  rw [normalized, hone, h.compact_eq, closeBucket, if_neg (by omega)]

/-- Joining the points of a full curve. -/
theorem compact (h : Covers 240 recorded history)
    (hwide : history.samples.length = 240 → history.bucketSecs * 2 ≤ maxU32) :
    Covers 239 recorded history.compact := by
  have hbounded := h.bounded
  by_cases hfull : history.samples.length = 240
  · have hpending := h.pending
    have htransferred := h.transferred
    have hfits := h.transferred_fits
    have hlog : (history.bucketSecs * 2).log2 = history.bucketSecs.log2 + 1 := by
      rw [h.width, ← Nat.pow_succ, Nat.log2_two_pow, Nat.log2_two_pow]
    have hcompact : history.compact = { history with
        samples := (chunks 2 history.samples).map mean
        bucketSecs := history.bucketSecs * 2 } := by
      rw [SpeedHistory.compact, if_pos (by unfold speedHistoryMaxPoints; omega), SpeedHistory.compact,
        if_neg (by simp [hfull, speedHistoryMaxPoints]), Nat.min_eq_left (hwide hfull)]
    have hlength : ((chunks 2 history.samples).map mean).length = 120 := by simp [hfull]
    have hcovered : history.bucketSecs * 2 * 120 = history.bucketSecs * history.samples.length := by
      rw [hfull, Nat.mul_assoc]
    rw [hcompact]
    exact
      { nonneg := h.nonneg
        width := by
          show history.bucketSecs * 2 = 2 ^ (history.bucketSecs * 2).log2
          rw [hlog, Nat.pow_succ, ← h.width]
        fits := hwide hfull
        bounded := by
          show ((chunks 2 history.samples).map mean).length ≤ 239
          omega
        pending := by
          show history.pendingSecs < history.bucketSecs * 2
          omega
        covered := by
          show history.bucketSecs * 2 * ((chunks 2 history.samples).map mean).length + _ = _
          rw [hlength, hcovered, h.covered]
        active := h.active
        active_fits := h.active_fits
        pendingSum := by
          show history.pendingSum = (recorded.drop
            (history.bucketSecs * 2 * ((chunks 2 history.samples).map mean).length)).sum
          rw [hlength, hcovered, h.pendingSum]
        transferred := h.transferred
        transferred_fits := h.transferred_fits
        peak := h.peak
        curve := by
          show Curve (history.bucketSecs * 2).log2 recorded (history.bucketSecs * 2) _
          rw [hlog]
          exact h.curve.join h.nonneg (by omega) (by omega) (by omega) }
  · rw [SpeedHistory.compact, if_neg (by unfold speedHistoryMaxPoints; omega)]
    exact { h with bounded := by omega }

private theorem curve_append (h : Covers 239 recorded history) (bps : Int) :
    Curve history.bucketSecs.log2 (recorded ++ [bps]) history.bucketSecs history.samples := by
  intro i p hp
  have hlt := (List.getElem?_eq_some_iff.mp hp).1
  have hmul : history.bucketSecs * (i + 1) ≤ history.bucketSecs * history.samples.length :=
    Nat.mul_le_mul_left _ hlt
  have hcovered := h.covered
  rw [bucket_append [bps] (by omega)]
  exact h.curve i p hp

private theorem sum_drop_append (h : Covers 239 recorded history) (bps : Int) :
    ((recorded ++ [bps]).drop (history.bucketSecs * history.samples.length)).sum =
      history.pendingSum + bps := by
  have hcovered := h.covered
  rw [List.drop_append_of_le_length (by omega), List.sum_append, List.sum_singleton, h.pendingSum]

private theorem nonneg_append (h : Covers 239 recorded history) (bps : Int) :
    ∀ r ∈ recorded ++ [max bps 0], 0 ≤ r := by
  intro r hr
  rcases List.mem_append.mp hr with hr | hr
  · exact h.nonneg r hr
  · rw [List.mem_singleton.mp hr]
    omega

/-- The curve with the point of the bucket that a second fills. -/
theorem curve_point (h : Covers 239 recorded history) {bps : Int}
    (hfull : history.pendingSecs + 1 = history.bucketSecs) :
    Curve history.bucketSecs.log2 (recorded ++ [max bps 0]) history.bucketSecs
      (history.samples ++ [(history.pendingSum + max bps 0).tdiv history.bucketSecs]) := by
  have hcovered := h.covered
  intro i p hp
  rcases Nat.lt_trichotomy i history.samples.length with hi | rfl | hi
  · rw [List.getElem?_append_left hi] at hp
    exact h.curve_append (max bps 0) i p hp
  · have hall : bucket (recorded ++ [max bps 0]) history.bucketSecs history.samples.length =
        (recorded ++ [max bps 0]).drop (history.bucketSecs * history.samples.length) := by
      apply List.take_of_length_le
      rw [List.length_drop, List.length_append, List.length_singleton]
      omega
    rw [List.getElem?_concat_length] at hp
    rw [← Option.some.inj hp, ← h.sum_drop_append (max bps 0), ← hall]
    exact near_tdiv _ (by omega) (sum_bucket_le (h.nonneg_append bps) _ _).1
  · rw [List.getElem?_eq_none (by simp; omega)] at hp
    cases hp

/-- What a second leaves of the totals, whatever becomes of the bucket. -/
theorem totals (h : Covers 239 recorded history) {bps : Int}
    (hexact : history.Exact (.push bps)) {most pendingSecs : Nat} {samples : List Int}
    {pendingSum : Int} (hsamples : samples.length ≤ most)
    (hsecs : pendingSecs < history.bucketSecs)
    (hcovered : history.bucketSecs * samples.length + pendingSecs = recorded.length + 1)
    (hsum : pendingSum =
      ((recorded ++ [max bps 0]).drop (history.bucketSecs * samples.length)).sum)
    (hcurve : Curve history.bucketSecs.log2 (recorded ++ [max bps 0]) history.bucketSecs samples) :
    Covers most (recorded ++ [max bps 0]) { history with
      samples, pendingSum, pendingSecs
      activeSecs := history.activeSecs + 1
      transferredBytes := history.transferredBytes + max bps 0
      peakBps := max history.peakBps (max bps 0) } := by
  obtain ⟨hactive, htransferred, -⟩ := hexact
  have hlength : (recorded ++ [max bps 0]).length = recorded.length + 1 := by simp
  exact
    { nonneg := h.nonneg_append bps
      width := h.width
      fits := h.fits
      bounded := hsamples
      pending := hsecs
      covered := hcovered.trans hlength.symm
      active := by
        rw [hlength, h.active]
        rfl
      active_fits := by
        show history.activeSecs + 1 < 2 ^ 63
        rw [← hactive]
        unfold saturatingAdd clampI64
        omega
      pendingSum := hsum
      transferred := by rw [List.sum_append, List.sum_singleton, h.transferred]
      transferred_fits := by
        show history.transferredBytes + max bps 0 < 2 ^ 63
        rw [← htransferred]
        unfold saturatingAdd clampI64
        omega
      peak := by
        rw [List.foldl_append, ← h.peak]
        rfl
      curve := hcurve }

/-- One more second is covered. -/
theorem push (h : Covers 239 recorded history) {bps : Int}
    (hexact : history.Exact (.push bps)) :
    Covers 239 (recorded ++ [max bps 0]) (history.pushSecond bps) := by
  have hpending := h.pending
  have hcovered := h.covered
  have hbounded := h.bounded
  have hwide := hexact.2.2.2
  unfold pushSecond
  simp only [hexact.1, hexact.2.1, hexact.2.2.1]
  by_cases hfull : history.pendingSecs + 1 = history.bucketSecs
  · have hmore : history.bucketSecs * (history.samples.length + 1) = recorded.length + 1 := by
      rw [Nat.mul_add]
      omega
    rw [closeBucket, if_pos (Nat.le_of_eq hfull.symm)]
    apply Covers.compact
    · apply h.totals hexact
      · simp only [List.length_append, List.length_singleton]
        exact Nat.lt_succ_of_le hbounded
      · omega
      · rw [List.length_append, List.length_singleton, hmore]
      · rw [List.length_append, List.length_singleton, hmore, List.drop_of_length_le, List.sum_nil]
        simp
      · simp only [hfull]
        exact h.curve_point hfull
    · intro hsamples
      apply hwide hfull
      simpa [speedHistoryMaxPoints] using hsamples
  · rw [closeBucket, if_neg (by simp only; omega)]
    apply h.totals hexact hbounded
    · omega
    · omega
    · exact (h.sum_drop_append (max bps 0)).symm
    · exact h.curve_append (max bps 0)

private theorem samples_fit (h : Covers 239 recorded history) {p : Int} (hp : p ∈ history.samples) :
    -2 ^ 63 ≤ p ∧ p < 2 ^ 63 := by
  obtain ⟨i, hi⟩ := List.mem_iff_getElem?.mp hp
  have hnear := h.curve i p hi
  have hsum := (sum_bucket_le h.nonneg history.bucketSecs i).2
  have hpending := h.pending
  have htransferred := h.transferred
  have hfits := h.transferred_fits
  have hle : p ≤ p * history.bucketSecs := le_mul_of_one_le_right hnear.nonneg (by omega)
  have := hnear.nonneg
  have := hnear.le
  omega

/-- Stored and read back, the history is the same. -/
theorem reload (h : Covers 239 recorded history) {codec : SampleCodec} (hcodec : codec.RoundTrips) :
    (save codec history).bind (load codec) = some history := by
  have hfits := h.fits
  have hpending := h.pending
  have htext := hcodec history.samples fun p hp ↦ h.samples_fit hp
  obtain ⟨text, hto, hfrom⟩ := Option.bind_eq_some_iff.mp htext
  have hu32 : ∀ n : Nat, n ≤ maxU32 → toU32 n = n := by
    intro n hn
    rw [toU32, if_pos (by omega), Int.toNat_natCast]
  rw [save, hto, Option.map_some, Option.bind_some, load, hfrom, Option.map_some]
  simp only [hu32 _ hfits, Int.max_eq_left (Int.natCast_nonneg history.pendingSecs),
    hu32 history.pendingSecs (by omega)]
  rw [h.normalized_eq]

private theorem step (h : Covers 239 recorded history) {codec : SampleCodec}
    (hcodec : codec.RoundTrips)
    {op : Op} (hexact : history.Exact op) :
    Covers 239 (recorded ++ rates [op]) (SpeedHistory.step codec history op) := by
  cases op with
  | push bps => exact h.push hexact
  | reload =>
    rw [SpeedHistory.step, h.reload hcodec, Option.getD_some]
    simpa [rates] using h

private theorem run {codec : SampleCodec} (hcodec : codec.RoundTrips) {ops : List Op}
    (h : Covers 239 recorded history)
    (hexact : EveryStep (SpeedHistory.step codec) Exact history ops) :
    Covers 239 (recorded ++ rates ops) (Base.run (SpeedHistory.step codec) history ops) := by
  induction ops generalizing recorded history with
  | nil => simpa [rates] using h
  | cons op ops ih =>
    have hrest := ih (h.step hcodec hexact.1) hexact.2
    rwa [List.append_assoc, show rates [op] ++ rates ops = rates (op :: ops) from
      (List.filterMap_append).symm] at hrest

/-- A second of a download whose totals fit stops no counter. -/
theorem exact (h : Covers 239 recorded history) {bps : Int}
    (hsum : recorded.sum + max bps 0 < 2 ^ 63) (hlength : recorded.length < maxU32) :
    history.Exact (.push bps) := by
  have hactive := h.active
  have htransferred := h.transferred
  have htotal := List.sum_nonneg h.nonneg
  have hdrop := List.sum_take_add_sum_drop recorded (history.bucketSecs * history.samples.length)
  have hbefore := List.sum_nonneg fun r hr ↦ h.nonneg r (List.mem_of_mem_take hr
    (i := history.bucketSecs * history.samples.length))
  have hafter := List.sum_nonneg fun r hr ↦ h.nonneg r (List.mem_of_mem_drop hr
    (i := history.bucketSecs * history.samples.length))
  rw [← h.pendingSum] at hdrop hafter
  have hmax : maxU32 < 2 ^ 62 := by decide
  refine ⟨?_, ?_, ?_, fun hfull hpoints ↦ ?_⟩
  · unfold saturatingAdd clampI64
    omega
  · unfold saturatingAdd clampI64
    omega
  · unfold saturatingAdd clampI64
    omega
  · -- 239 buckets are already filled
    have hcovered := h.covered
    have hmany : history.samples.length = 239 := Nat.succ.inj hpoints
    rw [hmany] at hcovered
    omega

/-- A download whose totals fit stops no counter. -/
theorem exact_run (h : Covers 239 recorded history) {codec : SampleCodec}
    (hcodec : codec.RoundTrips) {ops : List Op} (hsum : recorded.sum + (rates ops).sum < 2 ^ 63)
    (hlength : recorded.length + (rates ops).length ≤ maxU32) :
    EveryStep (SpeedHistory.step codec) Exact history ops := by
  induction ops generalizing recorded history with
  | nil => trivial
  | cons op ops ih =>
    have hrates : rates (op :: ops) = rates [op] ++ rates ops := List.filterMap_append (l := [op])
    have hnonneg : 0 ≤ (rates ops).sum := by
      apply List.sum_nonneg
      intro r hr
      obtain ⟨op', -, hop'⟩ := List.mem_filterMap.mp hr
      cases op' with
      | push bps => exact Option.some.inj hop' ▸ le_max_right bps 0
      | reload => cases hop'
    rw [hrates, List.sum_append] at hsum
    rw [hrates, List.length_append] at hlength
    have hexact : history.Exact op := by
      cases op with
      | push bps =>
        have hsingle : (rates [.push bps]).sum = max bps 0 := List.sum_singleton
        have hone : (rates [.push bps]).length = 1 := rfl
        exact h.exact (by omega) (by omega)
      | reload => trivial
    refine ⟨hexact, ih (h.step hcodec hexact) ?_ ?_⟩
    · rw [List.sum_append]
      omega
    · rw [List.length_append]
      omega

end Covers

/-- While no counter saturates, a history that is stored and read back any number of times covers
every second recorded, in fewer points than allowed, with exact totals, and each point is below the
average of its bucket by less than one more than the number of times the buckets became wider. -/
theorem curve_covers {codec : SampleCodec} (hcodec : codec.RoundTrips) {ops : List Op}
    (hexact : EveryStep (step codec) Exact {} ops) :
    let history := run (step codec) {} ops
    history.samples.length < speedHistoryMaxPoints ∧
      history.pendingSecs < history.bucketSecs ∧
      history.bucketSecs * history.samples.length + history.pendingSecs = history.activeSecs ∧
      history.activeSecs = (rates ops).length ∧
      history.transferredBytes = (rates ops).sum ∧
      history.peakBps = (rates ops).foldl max 0 ∧
      ∀ (i : Nat) (p : Int), history.samples[i]? = some p →
        ((bucket (rates ops) history.bucketSecs i).sum / history.bucketSecs : ℚ) -
            (1 + history.bucketSecs.log2) < p ∧
          (p : ℚ) ≤ (bucket (rates ops) history.bucketSecs i).sum / history.bucketSecs := by
  have h := Covers.empty.run hcodec hexact
  rw [List.nil_append] at h
  have hbounded := h.bounded
  have hpending := h.pending
  refine ⟨by unfold speedHistoryMaxPoints; omega, hpending, ?_, h.active, h.transferred, h.peak,
    fun i p hp ↦ ?_⟩
  · rw [h.active, ← h.covered]
    push_cast
    rfl
  · have hnear := h.curve i p hp
    have hpos : (0 : ℚ) < (run (step codec) {} ops).bucketSecs := by
      exact_mod_cast (show 0 < (run (step codec) {} ops).bucketSecs by omega)
    constructor
    · rw [sub_lt_iff_lt_add, div_lt_iff₀ hpos]
      have hlt : ((bucket (rates ops) (run (step codec) {} ops).bucketSecs i).sum : ℚ) <
          ((p + 1 + (run (step codec) {} ops).bucketSecs.log2 : Int) : ℚ) *
            (run (step codec) {} ops).bucketSecs := by
        exact_mod_cast hnear.lt
      have hcast : ((p + 1 + (run (step codec) {} ops).bucketSecs.log2 : Int) : ℚ) =
          p + (1 + (run (step codec) {} ops).bucketSecs.log2) := by
        push_cast
        ring
      rwa [hcast] at hlt
    · rw [le_div_iff₀ hpos]
      exact_mod_cast hnear.le

/-! ## Points as text -/

/-- An array of numbers in JSON. -/
def jsonCodec : SampleCodec where
  toString samples :=
    some (String.ofList ('[' :: [','].intercalate (samples.map fun p ↦ p.repr.toList) ++ [']']))
  fromStr text := match text.toList with
    | '[' :: rest =>
      if rest.getLast? ≠ some ']' then none
      else if rest.dropLast = [] then some []
      else (rest.dropLast.splitOn ',').mapM fun piece ↦
        (String.ofList piece).toInt?.filter fun p ↦ -2 ^ 63 ≤ p ∧ p < 2 ^ 63
    | _ => none

private theorem comma_not_mem_repr (p : Int) : ',' ∉ p.repr.toList := by
  have hdigits : ∀ n : Nat, ',' ∉ n.repr.toList := by
    intro n hmem
    rw [Nat.repr, String.toList_ofList] at hmem
    have hdigit := Nat.isDigit_of_mem_toDigits (by decide) (by decide) hmem
    exact absurd hdigit (by decide)
  rw [Int.repr_eq_if]
  split
  · exact hdigits _
  · rw [String.toList_append, List.mem_append, not_or]
    exact ⟨by decide, hdigits _⟩

private theorem repr_ne_empty (p : Int) : p.repr ≠ "" := by
  rw [Int.repr_eq_if]
  split
  · exact Nat.repr_ne_empty
  · simp

private theorem mapM_repr : ∀ {samples : List Int}, (∀ p ∈ samples, -2 ^ 63 ≤ p ∧ p < 2 ^ 63) →
    (samples.map fun p ↦ p.repr.toList).mapM (fun piece ↦
      (String.ofList piece).toInt?.filter fun p ↦ -2 ^ 63 ≤ p ∧ p < 2 ^ 63) = some samples
  | [], _ => rfl
  | p :: samples, h => by
    have hp : (some p).filter (fun p : Int ↦ decide (-2 ^ 63 ≤ p ∧ p < 2 ^ 63)) = some p := by
      rw [Option.filter_some, if_pos (decide_eq_true (h p List.mem_cons_self))]
    rw [List.map_cons, List.mapM_cons, String.ofList_toList, Int.toInt?_repr, hp,
      mapM_repr fun q hq ↦ h q (List.mem_cons_of_mem p hq)]
    rfl

private theorem jsonCodec_roundTrips : jsonCodec.RoundTrips := by
  intro samples hfit
  simp only [jsonCodec, Option.bind_some, String.toList_ofList, List.cons_append]
  rw [if_neg (by simp), List.dropLast_concat]
  cases samples with
  | nil => rfl
  | cons p samples =>
    rw [if_neg, List.splitOn_intercalate, mapM_repr hfit]
    · simp only [List.mem_map]
      rintro _ ⟨q, -, rfl⟩
      exact comma_not_mem_repr q
    · simp
    · intro hnil
      cases samples with
      | nil => exact repr_ne_empty p (by simpa using hnil)
      | cons q samples => simp [List.intercalate_cons_cons] at hnil

/-- 241 seconds of 100 and 200 bytes in turn. -/
def joinedOps : List Op :=
  (List.range 241).map fun second ↦ .push (if second % 2 = 0 then 100 else 200)

/-- The points were joined once and a second is left over when the curve is read back. -/
theorem curve_covers_json :
    let history := run (step jsonCodec) {} (joinedOps ++ [.reload])
    history.bucketSecs = 2 ∧ history.pendingSecs = 1 ∧ history.samples.length = 120 ∧
      history.activeSecs = 241 ∧ history.transferredBytes = 36100 ∧ history.peakBps = 200 ∧
      ∀ (i : Nat) (p : Int), history.samples[i]? = some p →
        (p : ℚ) ≤ (bucket (rates joinedOps) history.bucketSecs i).sum / history.bucketSecs := by
  have hpushed : EveryStep (step jsonCodec) Exact {} joinedOps :=
    Covers.empty.exact_run jsonCodec_roundTrips (by decide +kernel) (by decide +kernel)
  have hread : step jsonCodec (run (step jsonCodec) {} joinedOps) .reload =
      run (step jsonCodec) {} joinedOps := by
    rw [step, (Covers.empty.run jsonCodec_roundTrips hpushed).reload jsonCodec_roundTrips,
      Option.getD_some]
  have hexact : EveryStep (step jsonCodec) Exact {} (joinedOps ++ [.reload]) :=
    everyStep_append.mpr ⟨hpushed, trivial, trivial⟩
  have hjoined : (run (step jsonCodec) {} joinedOps).bucketSecs = 2 ∧
      (run (step jsonCodec) {} joinedOps).pendingSecs = 1 ∧
      (run (step jsonCodec) {} joinedOps).samples.length = 120 := by decide +kernel
  have hrates : rates (joinedOps ++ [.reload]) = rates joinedOps :=
    List.filterMap_append.trans (List.append_nil _)
  obtain ⟨-, -, -, hactive, htransferred, hpeak, hcurve⟩ :=
    curve_covers jsonCodec_roundTrips hexact
  rw [hrates] at hactive htransferred hpeak hcurve
  have hrun : run (step jsonCodec) {} (joinedOps ++ [.reload]) =
      run (step jsonCodec) {} joinedOps := by
    rw [run_concat, hread]
  rw [hrun] at hactive htransferred hpeak hcurve ⊢
  refine ⟨hjoined.1, hjoined.2.1, hjoined.2.2, hactive.trans ?_, htransferred.trans ?_,
    hpeak.trans ?_, fun i p hp ↦ (hcurve i p hp).2⟩
  · decide +kernel
  · decide +kernel
  · decide +kernel

end SpeedHistory

end Engine
