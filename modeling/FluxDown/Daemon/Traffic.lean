import FluxDown.Daemon.Counters

/-!
# Traffic is counted once

Library `Daemon`. The ring keeps the bytes of the last four seconds in buckets of 100 ms, each
under its tick. Bytes are spread over the ticks since the last sample in proportion to time, the
last tick taking what is left. A progress message records what the high-water mark of its task
gains.
-/

namespace Daemon

open Base Protocol

/-- The largest signed number of 64 bits. -/
def maxI64 : Int := 2 ^ 63 - 1

namespace RuntimeAccounting

/-! ## The ring -/

private theorem trafficBuckets_pos : 0 < trafficBuckets := by decide

/-- The slot of a tick. -/
def slotOf (tick : Nat) : Fin trafficBuckets :=
  ⟨tick % trafficBuckets, Nat.mod_lt _ trafficBuckets_pos⟩

/-- The bucket in the slot of a tick. -/
def bucketOf (a : RuntimeAccounting) (tick : Nat) : TrafficBucket := a.buckets[slotOf tick]

/-- The bytes kept of a tick, downloaded and uploaded. -/
def bytesAt (a : RuntimeAccounting) (tick : Nat) : Int × Int :=
  if (a.bucketOf tick).tick = tick then
    ((a.bucketOf tick).downloaded, (a.bucketOf tick).uploaded)
  else (0, 0)

/-- A bucket is unused or holds a tick of its slot, no later than `latest`, and its bytes fit. -/
structure TickedBy (latest : Nat) (slot : Fin trafficBuckets) (bucket : TrafficBucket) : Prop where
  slot : bucket.tick = 0 ∨ bucket.tick % trafficBuckets = slot
  old : bucket.tick ≤ latest
  downloaded : 0 ≤ bucket.downloaded ∧ bucket.downloaded ≤ maxI64
  uploaded : 0 ≤ bucket.uploaded ∧ bucket.uploaded ≤ maxI64

/-- Every bucket of the ring is so. -/
def Ticked (a : RuntimeAccounting) (latest : Nat) : Prop :=
  ∀ slot : Fin trafficBuckets, TickedBy latest slot a.buckets[slot]

/-- Slots of the ring are ticked later as well. -/
theorem Ticked.mono {a : RuntimeAccounting} {latest latest' : Nat} (h : a.Ticked latest)
    (hle : latest ≤ latest') : a.Ticked latest' := fun slot ↦
  { h slot with old := (h slot).old.trans hle }

/-- An empty slot was never ticked. -/
theorem tickedBy_empty (latest : Nat) (slot : Fin trafficBuckets) : TickedBy latest slot {} where
  slot := .inl rfl
  old := Nat.zero_le _
  downloaded := by decide
  uploaded := by decide

private theorem saturatingAdd_bounds {m n : Int} (hm : 0 ≤ m) (hn : 0 ≤ n) :
    0 ≤ saturatingAdd m n ∧ saturatingAdd m n ≤ maxI64 := by
  unfold saturatingAdd clampI64 maxI64
  omega

private theorem saturatingAdd_of_le {m n : Int} (hm : 0 ≤ m) (hn : 0 ≤ n) (hle : m + n ≤ maxI64) :
    saturatingAdd m n = m + n := by
  unfold saturatingAdd clampI64
  unfold maxI64 at hle
  omega

private theorem saturatingSub_of_le {m n : Int} (hm : m ≤ maxI64) (hn : 0 ≤ n) (hle : n ≤ m) :
    saturatingSub m n = m - n := by
  unfold saturatingSub clampI64
  unfold maxI64 at hm
  omega

/-- Two ticks less than a turn of the ring apart have different slots. -/
theorem slotOf_inj {s t : Nat} (h : slotOf s = slotOf t) (hst : s < t + trafficBuckets)
    (hts : t < s + trafficBuckets) : s = t := by
  have hmod : s % trafficBuckets = t % trafficBuckets := congrArg Fin.val h
  unfold trafficBuckets at *
  omega

section Add

variable {a : RuntimeAccounting} {latest tick : Nat} {downloaded uploaded : Int}

/-- No bucket holds a later tick than the one that comes to its slot. -/
theorem Ticked.not_newer (h : a.Ticked latest) (hrecent : latest < tick + trafficBuckets) :
    ¬ tick < (a.bucketOf tick).tick := by
  intro hnewer
  have hbucket := h (slotOf tick)
  rcases hbucket.slot with hzero | hslot
  · have hzero : (a.bucketOf tick).tick = 0 := hzero
    omega
  · have hslot : (a.bucketOf tick).tick % trafficBuckets = tick % trafficBuckets := hslot
    have hold : (a.bucketOf tick).tick ≤ latest := hbucket.old
    unfold trafficBuckets at *
    omega

private theorem addToBucket_of_ticked (h : a.Ticked latest)
    (hrecent : latest < tick + trafficBuckets) :
    a.addToBucket tick downloaded uploaded =
      { a with
        buckets := a.buckets.set (slotOf tick)
          { tick
            downloaded := saturatingAdd (a.bytesAt tick).1 downloaded
            uploaded := saturatingAdd (a.bytesAt tick).2 uploaded } } := by
  have hnewer := h.not_newer hrecent
  unfold addToBucket bytesAt
  change (if tick < (a.bucketOf tick).tick then a else
    let bucket := if (a.bucketOf tick).tick ≠ tick then { tick := tick } else a.bucketOf tick
    { a with
      buckets := a.buckets.set (slotOf tick)
        { bucket with
          downloaded := saturatingAdd bucket.downloaded downloaded
          uploaded := saturatingAdd bucket.uploaded uploaded } }) = _
  rw [if_neg hnewer]
  by_cases heq : (a.bucketOf tick).tick = tick
  · simp only [heq, ne_eq, not_true_eq_false, if_false, if_true]
  · simp only [heq, ne_eq, not_false_eq_true, if_true, if_false]

/-- A bucket after an addition: the tick's own is renewed, the others stay. -/
theorem buckets_addToBucket (h : a.Ticked latest) (hrecent : latest < tick + trafficBuckets)
    (slot : Fin trafficBuckets) :
    (a.addToBucket tick downloaded uploaded).buckets[slot] =
      if slot = slotOf tick then
        { tick
          downloaded := saturatingAdd (a.bytesAt tick).1 downloaded
          uploaded := saturatingAdd (a.bytesAt tick).2 uploaded }
      else a.buckets[slot] := by
  rw [addToBucket_of_ticked h hrecent]
  change (a.buckets.set (slotOf tick) _)[slot.val] = _
  rw [Vector.getElem_set]
  simp only [← Fin.ext_iff, eq_comm]
  rfl

private theorem bytesAt_nonneg (h : a.Ticked latest) (tick : Nat) :
    0 ≤ (a.bytesAt tick).1 ∧ 0 ≤ (a.bytesAt tick).2 := by
  unfold bytesAt
  split
  · exact ⟨(h (slotOf tick)).downloaded.1, (h (slotOf tick)).uploaded.1⟩
  · exact ⟨le_refl _, le_refl _⟩

private theorem ticked_addToBucket (h : a.Ticked latest) (hrecent : latest < tick + trafficBuckets)
    (htick : tick ≤ latest) (hdownloaded : 0 ≤ downloaded) (huploaded : 0 ≤ uploaded) :
    (a.addToBucket tick downloaded uploaded).Ticked latest := by
  intro slot
  rw [buckets_addToBucket h hrecent]
  have hbytes := a.bytesAt_nonneg h tick
  split
  · next hslot =>
    exact {
      slot := .inr (congrArg Fin.val hslot.symm)
      old := htick
      downloaded := saturatingAdd_bounds hbytes.1 hdownloaded
      uploaded := saturatingAdd_bounds hbytes.2 huploaded }
  · exact h slot

/-- The bytes of a tick after an addition, where the tick is still in the ring. -/
theorem bytesAt_addToBucket (h : a.Ticked latest) (hrecent : latest < tick + trafficBuckets)
    (htick : tick ≤ latest) {other : Nat} (hother : latest < other + trafficBuckets) :
    (a.addToBucket tick downloaded uploaded).bytesAt other =
      if other = tick then
        (saturatingAdd (a.bytesAt tick).1 downloaded, saturatingAdd (a.bytesAt tick).2 uploaded)
      else a.bytesAt other := by
  have hbucket : (a.addToBucket tick downloaded uploaded).bucketOf other = _ :=
    buckets_addToBucket h hrecent (slotOf other)
  by_cases heq : other = tick
  · subst heq
    rw [if_pos rfl] at hbucket
    rw [if_pos rfl, bytesAt, hbucket, if_pos rfl]
  · rw [if_neg heq]
    unfold bytesAt
    rw [hbucket]
    split
    · next hslot =>
      -- Ticks of one slot are a turn apart, so the other one lies ahead and has nothing yet.
      have hahead : latest < other := by
        by_contra hbehind
        exact heq (slotOf_inj hslot (by omega) (by omega))
      have hold : (a.bucketOf other).tick ≤ latest := (h (slotOf other)).old
      rw [if_neg (Ne.symm heq), if_neg (by omega)]
    · rfl

end Add

/-! ## Shares -/

private theorem proportion_spec {value : Int} (hvalue : 0 ≤ value) (hmax : value ≤ maxI64)
    {part whole : Nat}
    (hpart : part ≤ whole) (hwhole : 0 < whole) :
    0 ≤ proportion value part whole ∧ proportion value part whole * whole ≤ value * part := by
  have hproduct : 0 ≤ value * part := Int.mul_nonneg hvalue (Int.natCast_nonneg _)
  have hscaled : (value * part).tdiv whole = value * part / whole :=
    Int.tdiv_eq_ediv_of_nonneg hproduct
  have hnonneg : 0 ≤ value * part / whole := Int.ediv_nonneg hproduct (Int.natCast_nonneg _)
  have hle : value * part / whole ≤ value := by
    apply Int.ediv_le_of_le_mul (by omega)
    exact Int.mul_le_mul_of_nonneg_left (by omega) hvalue
  have hfits : -2 ^ 63 ≤ value * part / whole ∧ value * part / whole ≤ 2 ^ 63 - 1 := by
    unfold maxI64 at hmax
    omega
  unfold proportion
  rw [hscaled]
  simp only [hfits, and_self, if_true]
  exact ⟨hnonneg, Int.ediv_mul_le _ (by omega)⟩

section Shares

variable (start stop : Nat) (value : Int)

/-- The share of a tick before the last one. -/
def share (tick : Nat) : Int :=
  proportion value (min stop ((tick + 1) * trafficBucketUs) - max start (tick * trafficBucketUs))
    (stop - start)

/-- What is left for a tick and those after it. -/
def left (tick : Nat) : Int :=
  value - ((List.range' (start / trafficBucketUs) (tick - start / trafficBucketUs)).map
    (share start stop value)).sum

/-- What each tick gets. -/
def allotted (tick : Nat) : Int :=
  if tick < start / trafficBucketUs ∨ stop / trafficBucketUs < tick then 0
  else if tick = stop / trafficBucketUs then left start stop value tick
  else share start stop value tick

private theorem left_first : left start stop value (start / trafficBucketUs) = value := by
  simp [left]

private theorem left_succ {tick : Nat} (htick : start / trafficBucketUs ≤ tick) :
    left start stop value (tick + 1) =
      left start stop value tick - share start stop value tick := by
  have hlength : tick + 1 - start / trafficBucketUs = tick - start / trafficBucketUs + 1 := by omega
  have hlast : start / trafficBucketUs + 1 * (tick - start / trafficBucketUs) = tick := by omega
  unfold left
  rw [hlength, List.range'_concat, hlast, List.map_append, List.sum_append, List.map_singleton,
    List.sum_singleton]
  omega

variable {start stop value}

/-- The share of a tick and what is left after it, where more ticks follow. -/
theorem share_spec (hvalue : 0 ≤ value) (hmax : value ≤ maxI64) {tick : Nat}
    (hfirst : start / trafficBucketUs ≤ tick) (hlast : tick < stop / trafficBucketUs) :
    0 ≤ share start stop value tick ∧
      share start stop value tick * (stop - start : Nat) ≤
        value * ((tick + 1) * trafficBucketUs - max start (tick * trafficBucketUs) : Nat) := by
  have hspan : (tick + 1) * trafficBucketUs ≤ stop := by
    unfold trafficBucketUs at *
    omega
  have hstart : start < (tick + 1) * trafficBucketUs := by
    unfold trafficBucketUs at *
    omega
  unfold share
  rw [Nat.min_eq_right hspan]
  exact proportion_spec hvalue hmax (by omega) (by omega)

/-- What is left is enough for the time that is left. -/
theorem left_spec (hvalue : 0 ≤ value) (hmax : value ≤ maxI64) :
    ∀ {tick : Nat}, start / trafficBucketUs ≤ tick → tick ≤ stop / trafficBucketUs →
      left start stop value tick ≤ value ∧
        value * (stop - max start (tick * trafficBucketUs) : Nat) ≤
          left start stop value tick * (stop - start : Nat) := by
  intro tick hfirst
  induction tick, hfirst using Nat.le_induction with
  | base =>
    intro _
    have hstart : max start (start / trafficBucketUs * trafficBucketUs) = start :=
      Nat.max_eq_left (Nat.div_mul_le_self _ _)
    rw [left_first, hstart]
    exact ⟨le_refl _, le_refl _⟩
  | succ tick hfirst ih =>
    intro hlast
    obtain ⟨hle, henough⟩ := ih (by omega)
    obtain ⟨hnonneg, hshare⟩ := share_spec hvalue hmax hfirst hlast
    rw [left_succ start stop value hfirst]
    refine ⟨by omega, ?_⟩
    have hspan : (tick + 1) * trafficBucketUs ≤ stop := by
      unfold trafficBucketUs at *
      omega
    have hstart : start < (tick + 1) * trafficBucketUs := by
      unfold trafficBucketUs at *
      omega
    have hlength : stop - max start (tick * trafficBucketUs) =
        (stop - max start ((tick + 1) * trafficBucketUs)) +
          ((tick + 1) * trafficBucketUs - max start (tick * trafficBucketUs)) := by
      unfold trafficBucketUs at *
      omega
    rw [hlength, Nat.cast_add, Int.mul_add] at henough
    rw [Int.sub_mul]
    omega

private theorem left_nonneg (hle : start ≤ stop) (hvalue : 0 ≤ value) (hmax : value ≤ maxI64)
    {tick : Nat}
    (hfirst : start / trafficBucketUs ≤ tick) (hlast : tick ≤ stop / trafficBucketUs) :
    0 ≤ left start stop value tick := by
  rcases Nat.eq_or_lt_of_le hfirst with rfl | hlater
  · rw [left_first]
    exact hvalue
  · have hspan : 0 < (stop - start : Nat) := by
      unfold trafficBucketUs at *
      omega
    have henough := (left_spec hvalue hmax hfirst hlast).2
    have hzero : 0 ≤ left start stop value tick * (stop - start : Nat) :=
      le_trans (Int.mul_nonneg hvalue (Int.natCast_nonneg _)) henough
    exact nonneg_of_mul_nonneg_left hzero (by omega)

private theorem allotted_nonneg (hle : start ≤ stop) (hvalue : 0 ≤ value) (hmax : value ≤ maxI64)
    (tick : Nat) : 0 ≤ allotted start stop value tick := by
  unfold allotted
  split
  · exact le_refl _
  · split
    · next heq => exact left_nonneg hle hvalue hmax (by omega) (by omega)
    · exact (share_spec hvalue hmax (by omega) (by omega)).1

/-- The shares are all of the value. -/
theorem allotted_sum (hle : start ≤ stop) :
    ((List.range (stop / trafficBucketUs + 1)).map (allotted start stop value)).sum = value := by
  have hticks : start / trafficBucketUs ≤ stop / trafficBucketUs := Nat.div_le_div_right hle
  have hsplit : List.range (stop / trafficBucketUs) =
      List.range' 0 (start / trafficBucketUs) ++ List.range' (start / trafficBucketUs)
        (stop / trafficBucketUs - start / trafficBucketUs) := by
    have happend := List.range'_append_1 (s := 0) (m := start / trafficBucketUs)
      (n := stop / trafficBucketUs - start / trafficBucketUs)
    rw [Nat.zero_add, Nat.add_sub_cancel' hticks] at happend
    rw [List.range_eq_range', happend]
  have hbefore : ∀ tick ∈ List.range' 0 (start / trafficBucketUs),
      allotted start stop value tick = 0 := by
    intro tick htick
    have := (List.mem_range'_1.mp htick).2
    rw [allotted, if_pos (by omega)]
  have hamong : ∀ tick ∈ List.range' (start / trafficBucketUs)
      (stop / trafficBucketUs - start / trafficBucketUs),
      allotted start stop value tick = share start stop value tick := by
    intro tick htick
    have := List.mem_range'_1.mp htick
    rw [allotted, if_neg (by omega), if_neg (by omega)]
  have hlast : allotted start stop value (stop / trafficBucketUs) =
      left start stop value (stop / trafficBucketUs) := by
    rw [allotted, if_neg (by omega), if_pos rfl]
  rw [List.range_succ, List.map_append, List.sum_append, hsplit, List.map_append, List.sum_append,
    List.map_congr_left hamong, List.map_singleton, List.sum_singleton, hlast,
    List.sum_eq_zero (by simpa using hbefore), left]
  omega

end Shares

/-! ## One call -/

section Spread

variable {start stop : Nat} {downloaded uploaded : Int}

/-- One turn of the loop of `spread`. -/
def spreadTick (start stop : Nat) (downloaded uploaded : Int)
    (acc : RuntimeAccounting × Int × Int) (tick : Nat) : RuntimeAccounting × Int × Int :=
  let (a, downloadedLeft, uploadedLeft) := acc
  let (down, up) :=
    if tick = stop / trafficBucketUs then (downloadedLeft, uploadedLeft)
    else (share start stop downloaded tick, share start stop uploaded tick)
  (a.addToBucket tick down up, saturatingSub downloadedLeft down, saturatingSub uploadedLeft up)

/-- Traffic is spread tick by tick. -/
theorem spread_eq (a : RuntimeAccounting) :
    a.spread start stop downloaded uploaded =
      ((List.range' (start / trafficBucketUs)
        (stop / trafficBucketUs + 1 - start / trafficBucketUs)).foldl
          (spreadTick start stop downloaded uploaded) (a, downloaded, uploaded)).1 := by
  unfold spread
  congr 2

/-- With what the code has left of the value, a turn gives the tick what it is allotted. -/
theorem spreadTick_eq (hle : start ≤ stop) (hdownloaded : 0 ≤ downloaded)
    (hmaxDownloaded : downloaded ≤ maxI64) (huploaded : 0 ≤ uploaded)
    (hmaxUploaded : uploaded ≤ maxI64) (a : RuntimeAccounting) {tick : Nat}
    (hfirst : start / trafficBucketUs ≤ tick) (hlast : tick < stop / trafficBucketUs) :
    spreadTick start stop downloaded uploaded
        (a, left start stop downloaded tick, left start stop uploaded tick) tick =
      (a.addToBucket tick (allotted start stop downloaded tick) (allotted start stop uploaded tick),
        left start stop downloaded (tick + 1), left start stop uploaded (tick + 1)) := by
  have hshare : ∀ {value : Int}, 0 ≤ value → value ≤ maxI64 →
      allotted start stop value tick = share start stop value tick ∧
        saturatingSub (left start stop value tick) (share start stop value tick) =
          left start stop value (tick + 1) := by
    intro value hvalue hmax
    have hnext : 0 ≤ left start stop value (tick + 1) :=
      left_nonneg hle hvalue hmax (by omega) (by omega)
    rw [left_succ start stop value hfirst] at hnext ⊢
    constructor
    · rw [allotted, if_neg (by omega), if_neg (by omega)]
    · apply saturatingSub_of_le
      · exact (left_spec hvalue hmax hfirst (by omega)).1.trans hmax
      · exact (share_spec hvalue hmax hfirst hlast).1
      · omega
  have hdown := hshare hdownloaded hmaxDownloaded
  have hup := hshare huploaded hmaxUploaded
  unfold spreadTick
  simp only [Nat.ne_of_lt hlast, if_false, hdown, hup]

variable (start stop downloaded uploaded)

/-- The ticks from `tick` to the last one have got what they are allotted, and no other has. -/
structure Filled (tick : Nat) (a b : RuntimeAccounting) : Prop where
  ticked : b.Ticked (stop / trafficBucketUs)
  bytes : ∀ other, stop / trafficBucketUs < other + trafficBuckets →
    b.bytesAt other =
      if tick ≤ other ∧ other ≤ stop / trafficBucketUs then
        (saturatingAdd (a.bytesAt other).1 (allotted start stop downloaded other),
          saturatingAdd (a.bytesAt other).2 (allotted start stop uploaded other))
      else a.bytesAt other
  kept : ∀ other, tick ≤ other → other ≤ stop / trafficBucketUs → (b.bucketOf other).tick = other
  frame : ∀ slot, (∀ other, tick ≤ other → other ≤ stop / trafficBucketUs → slotOf other ≠ slot) →
    b.buckets[slot] = a.buckets[slot]

variable {start stop downloaded uploaded}

private theorem tick_bucketOf_addToBucket {a : RuntimeAccounting} {latest tick : Nat}
    (h : a.Ticked latest) (hrecent : latest < tick + trafficBuckets) :
    ((a.addToBucket tick downloaded uploaded).bucketOf tick).tick = tick := by
  have hbucket : (a.addToBucket tick downloaded uploaded).bucketOf tick = _ :=
    buckets_addToBucket h hrecent (slotOf tick)
  rw [hbucket, if_pos rfl]

private theorem filled_last {a : RuntimeAccounting} (hle : start ≤ stop)
    (h : a.Ticked (stop / trafficBucketUs))
    (hdownloaded : 0 ≤ downloaded) (hmaxDownloaded : downloaded ≤ maxI64) (huploaded : 0 ≤ uploaded)
    (hmaxUploaded : uploaded ≤ maxI64) :
    Filled start stop downloaded uploaded (stop / trafficBucketUs) a
      (a.addToBucket (stop / trafficBucketUs)
        (allotted start stop downloaded (stop / trafficBucketUs))
        (allotted start stop uploaded (stop / trafficBucketUs))) where
  ticked := ticked_addToBucket h (by unfold trafficBuckets; omega) (Nat.le_refl _)
    (allotted_nonneg hle hdownloaded hmaxDownloaded _)
    (allotted_nonneg hle huploaded hmaxUploaded _)
  bytes other hother := by
    rw [bytesAt_addToBucket h (by unfold trafficBuckets; omega) (Nat.le_refl _) hother]
    by_cases heq : other = stop / trafficBucketUs
    · rw [if_pos heq, if_pos (by omega), heq]
    · rw [if_neg heq, if_neg (by omega)]
  kept other hfrom hto := by
    obtain rfl : other = stop / trafficBucketUs := Nat.le_antisymm hto hfrom
    exact tick_bucketOf_addToBucket h (by unfold trafficBuckets; omega)
  frame slot hslot := by
    rw [buckets_addToBucket h (by unfold trafficBuckets; omega),
      if_neg (Ne.symm (hslot _ (Nat.le_refl _) (Nat.le_refl _)))]

/-- One tick before the ones that have been filled. -/
theorem filled_cons {a b : RuntimeAccounting} {tick : Nat}
    (h : a.Ticked (stop / trafficBucketUs)) (hrecent : stop / trafficBucketUs < tick + trafficBuckets)
    (hlast : tick < stop / trafficBucketUs)
    (hfilled : Filled start stop downloaded uploaded (tick + 1)
      (a.addToBucket tick (allotted start stop downloaded tick) (allotted start stop uploaded tick))
      b) : Filled start stop downloaded uploaded tick a b where
  ticked := hfilled.ticked
  bytes other hother := by
    rw [hfilled.bytes other hother, bytesAt_addToBucket h hrecent (by omega) hother]
    by_cases heq : other = tick
    · rw [if_neg (by omega), if_pos heq, if_pos (by omega), heq]
    · simp only [heq, if_false]
      exact if_congr (by omega) rfl rfl
  kept other hfrom hto := by
    rcases Nat.eq_or_lt_of_le hfrom with rfl | hlater
    · have hframe : b.bucketOf tick = _ := hfilled.frame (slotOf tick) fun other hfrom hto hslot ↦ by
        have := slotOf_inj hslot (by omega) (by omega)
        omega
      rw [hframe]
      exact tick_bucketOf_addToBucket h hrecent
    · exact hfilled.kept other hlater hto
  frame slot hslot := by
    rw [hfilled.frame slot fun other hfrom hto ↦ hslot other (by omega) hto,
      buckets_addToBucket h hrecent, if_neg (Ne.symm (hslot tick (Nat.le_refl _) hlast.le))]

/-- The loop of `spread` from a tick on. -/
theorem filled_foldl (hle : start ≤ stop) (hdownloaded : 0 ≤ downloaded)
    (hmaxDownloaded : downloaded ≤ maxI64) (huploaded : 0 ≤ uploaded)
    (hmaxUploaded : uploaded ≤ maxI64) (n : Nat) :
    ∀ (tick : Nat) (a : RuntimeAccounting), tick + n = stop / trafficBucketUs →
      start / trafficBucketUs ≤ tick → stop / trafficBucketUs < tick + trafficBuckets →
      a.Ticked (stop / trafficBucketUs) →
      Filled start stop downloaded uploaded tick a
        ((List.range' tick (n + 1)).foldl (spreadTick start stop downloaded uploaded)
          (a, left start stop downloaded tick, left start stop uploaded tick)).1 := by
  induction n with
  | zero =>
    intro tick a htick hfirst hrecent h
    obtain rfl : tick = stop / trafficBucketUs := htick
    have hlast : ∀ value, allotted start stop value (stop / trafficBucketUs) =
        left start stop value (stop / trafficBucketUs) := by
      intro value
      rw [allotted, if_neg (by omega), if_pos rfl]
    have hfilled := filled_last hle h hdownloaded hmaxDownloaded huploaded hmaxUploaded
    rw [hlast, hlast] at hfilled
    rw [Nat.zero_add, List.range'_one, List.foldl_cons, List.foldl_nil]
    simp only [spreadTick, if_true]
    exact hfilled
  | succ n ih =>
    intro tick a htick hfirst hrecent h
    rw [List.range'_succ, List.foldl_cons, spreadTick_eq hle hdownloaded hmaxDownloaded huploaded
      hmaxUploaded a hfirst (by omega)]
    apply filled_cons h hrecent (by omega)
    apply ih (tick + 1) _ (by omega) (by omega) (by omega)
    exact ticked_addToBucket h hrecent (by omega)
      (allotted_nonneg hle hdownloaded hmaxDownloaded _)
      (allotted_nonneg hle huploaded hmaxUploaded _)

/-- The whole loop. -/
theorem filled_spread {a : RuntimeAccounting} (hle : start ≤ stop)
    (hcap : stop ≤ start + spreadCapUs) (hdownloaded : 0 ≤ downloaded)
    (hmaxDownloaded : downloaded ≤ maxI64) (huploaded : 0 ≤ uploaded)
    (hmaxUploaded : uploaded ≤ maxI64) (h : a.Ticked (stop / trafficBucketUs)) :
    Filled start stop downloaded uploaded (start / trafficBucketUs) a
      (a.spread start stop downloaded uploaded) := by
  have hticks : start / trafficBucketUs ≤ stop / trafficBucketUs := Nat.div_le_div_right hle
  have hcount : stop / trafficBucketUs + 1 - start / trafficBucketUs =
      (stop / trafficBucketUs - start / trafficBucketUs) + 1 := by omega
  have hfilled := filled_foldl hle hdownloaded hmaxDownloaded huploaded hmaxUploaded
    (stop / trafficBucketUs - start / trafficBucketUs) (start / trafficBucketUs) a (by omega)
    (Nat.le_refl _) (by unfold spreadCapUs trafficBucketUs trafficBuckets at *; omega) h
  rw [left_first, left_first] at hfilled
  rw [spread_eq, hcount]
  exact hfilled

end Spread

section Record

/-- Since when bytes are spread: since the last sample, for at most a second. -/
def spreadStart (a : RuntimeAccounting) (since : Option Nat) (now : Nat) : Nat :=
  min (max ((since.map a.micros).getD (a.micros now)) (a.micros now - spreadCapUs)) (a.micros now)

/-- From `a` to `after` every tick gets its share on top of what it has, by the given addition. The
shares are all of the bytes, none is negative, and only the ticks of the spread get one. No share
divides by zero, and the slots of the spread hold its ticks. -/
structure Counts (add : Int → Int → Int) (a after : RuntimeAccounting) (downloaded uploaded : Int)
    (since : Option Nat) (now : Nat) (shares : Nat → Int × Int) : Prop where
  nonneg : ∀ tick, 0 ≤ (shares tick).1 ∧ 0 ≤ (shares tick).2
  within : ∀ tick, shares tick ≠ (0, 0) →
    a.spreadStart since now / trafficBucketUs ≤ tick ∧ tick ≤ a.tick now
  allDownloaded : ((List.range (a.tick now + 1)).map fun tick ↦ (shares tick).1).sum = downloaded
  allUploaded : ((List.range (a.tick now + 1)).map fun tick ↦ (shares tick).2).sum = uploaded
  divides : ∀ tick, a.spreadStart since now / trafficBucketUs ≤ tick → tick < a.tick now →
    0 < a.micros now - a.spreadStart since now
  added : ∀ tick, a.tick now < tick + trafficBuckets →
    after.bytesAt tick =
      (add (a.bytesAt tick).1 (shares tick).1, add (a.bytesAt tick).2 (shares tick).2)
  kept : ¬ (downloaded = 0 ∧ uploaded = 0) →
    ∀ tick, a.spreadStart since now / trafficBucketUs ≤ tick → tick ≤ a.tick now →
      (after.bucketOf tick).tick = tick

variable {a : RuntimeAccounting} {downloaded uploaded : Int}

private theorem spreadStart_le (a : RuntimeAccounting) (since : Option Nat) (now : Nat) :
    a.spreadStart since now ≤ a.micros now := Nat.min_le_right _ _

private theorem le_spreadStart (a : RuntimeAccounting) (since : Option Nat) (now : Nat) :
    a.micros now ≤ a.spreadStart since now + spreadCapUs := by
  unfold spreadStart
  omega

/-- What a call does beside the spread is not to the ring. -/
theorem exists_spread_eq (a : RuntimeAccounting) (downloaded uploaded : Int)
    (since : Option Nat) (now : Nat) (hbytes : ¬ (downloaded = 0 ∧ uploaded = 0)) :
    ∃ b : RuntimeAccounting, b.buckets = a.buckets ∧ b.origin = a.origin ∧
      a.recordTraffic downloaded uploaded since now =
        b.spread (a.spreadStart since now) (a.micros now) downloaded uploaded := by
  unfold recordTraffic
  rw [if_neg hbytes]
  dsimp only
  split
  · exact ⟨{ a with burstStart := _, published := none }, rfl, rfl, rfl⟩
  · exact ⟨a, rfl, rfl, rfl⟩

/-- The bytes of a tick are those of its slot. -/
theorem bytesAt_congr {b : RuntimeAccounting} (h : b.buckets = a.buckets) (tick : Nat) :
    b.bytesAt tick = a.bytesAt tick := by
  unfold bytesAt bucketOf
  rw [h]

private theorem filled_recordTraffic (hdownloaded : 0 ≤ downloaded)
    (hmaxDownloaded : downloaded ≤ maxI64)
    (huploaded : 0 ≤ uploaded) (hmaxUploaded : uploaded ≤ maxI64) (since : Option Nat) {now : Nat}
    (h : a.Ticked (a.tick now)) (hbytes : ¬ (downloaded = 0 ∧ uploaded = 0)) :
    Filled (a.spreadStart since now) (a.micros now) downloaded uploaded
      (a.spreadStart since now / trafficBucketUs) a
      (a.recordTraffic downloaded uploaded since now) := by
  obtain ⟨b, hbuckets, -, heq⟩ := a.exists_spread_eq downloaded uploaded since now hbytes
  have hticked : b.Ticked (a.tick now) := fun slot ↦ by
    rw [hbuckets]
    exact h slot
  have hfilled := filled_spread (a.spreadStart_le since now) (a.le_spreadStart since now)
    hdownloaded hmaxDownloaded huploaded hmaxUploaded hticked
  rw [heq]
  exact {
    ticked := hfilled.ticked
    bytes := fun other hother ↦ by
      rw [hfilled.bytes other hother, bytesAt_congr hbuckets]
    kept := hfilled.kept
    frame := fun slot hslot ↦ by rw [hfilled.frame slot hslot, hbuckets] }

/-- Recording traffic keeps the ring behind the clock. -/
theorem ticked_recordTraffic (hdownloaded : 0 ≤ downloaded) (hmaxDownloaded : downloaded ≤ maxI64)
    (huploaded : 0 ≤ uploaded) (hmaxUploaded : uploaded ≤ maxI64) (since : Option Nat) {now : Nat}
    (h : a.Ticked (a.tick now)) :
    (a.recordTraffic downloaded uploaded since now).Ticked (a.tick now) := by
  by_cases hbytes : downloaded = 0 ∧ uploaded = 0
  · unfold recordTraffic
    rw [if_pos hbytes]
    exact h
  · exact (filled_recordTraffic hdownloaded hmaxDownloaded huploaded hmaxUploaded since h
      hbytes).ticked

private theorem saturatingAdd_zero {m : Int} (h : 0 ≤ m ∧ m ≤ maxI64) : saturatingAdd m 0 = m := by
  rw [saturatingAdd_of_le h.1 (le_refl _) (by omega), Int.add_zero]

private theorem bytesAt_bounds {latest : Nat} (h : a.Ticked latest) (tick : Nat) :
    (0 ≤ (a.bytesAt tick).1 ∧ (a.bytesAt tick).1 ≤ maxI64) ∧
      0 ≤ (a.bytesAt tick).2 ∧ (a.bytesAt tick).2 ≤ maxI64 := by
  unfold bytesAt
  split
  · exact ⟨(h (slotOf tick)).downloaded, (h (slotOf tick)).uploaded⟩
  · decide

private theorem share_zero (start stop : Nat) : share start stop 0 = fun _ ↦ 0 := by
  funext tick
  simp [share, proportion]

private theorem allotted_zero (start stop tick : Nat) : allotted start stop 0 tick = 0 := by
  have hleft : left start stop 0 tick = 0 := by simp [left, share_zero]
  simp only [allotted, share_zero, hleft, ite_self]

/-- A call counts its bytes where no bucket is ahead of it. -/
theorem counts_recordTraffic (hdownloaded : 0 ≤ downloaded) (hmaxDownloaded : downloaded ≤ maxI64)
    (huploaded : 0 ≤ uploaded) (hmaxUploaded : uploaded ≤ maxI64) (since : Option Nat) {now : Nat}
    (h : a.Ticked (a.tick now)) :
    Counts saturatingAdd a (a.recordTraffic downloaded uploaded since now) downloaded uploaded since
        now fun tick ↦
      (allotted (a.spreadStart since now) (a.micros now) downloaded tick,
        allotted (a.spreadStart since now) (a.micros now) uploaded tick) where
  nonneg tick :=
    have hle := a.spreadStart_le since now
    ⟨allotted_nonneg hle hdownloaded hmaxDownloaded tick,
      allotted_nonneg hle huploaded hmaxUploaded tick⟩
  within tick hshare := by
    by_contra hout
    apply hshare
    have hout : tick < a.spreadStart since now / trafficBucketUs ∨
        a.micros now / trafficBucketUs < tick := by
      unfold RuntimeAccounting.tick at hout
      omega
    simp only [allotted, hout, if_true]
  allDownloaded := allotted_sum (a.spreadStart_le since now)
  allUploaded := allotted_sum (a.spreadStart_le since now)
  divides tick hfirst hlast := by
    unfold RuntimeAccounting.tick trafficBucketUs at *
    omega
  added tick hrecent := by
    have hbounds := bytesAt_bounds h tick
    by_cases hbytes : downloaded = 0 ∧ uploaded = 0
    · obtain ⟨rfl, rfl⟩ := hbytes
      have hsame : a.recordTraffic 0 0 since now = a := if_pos ⟨rfl, rfl⟩
      rw [hsame]
      simp only [allotted_zero, saturatingAdd_zero hbounds.1, saturatingAdd_zero hbounds.2]
    · rw [(filled_recordTraffic hdownloaded hmaxDownloaded huploaded hmaxUploaded since h
        hbytes).bytes tick hrecent]
      split
      · rfl
      · next hout =>
        have hout : tick < a.spreadStart since now / trafficBucketUs ∨
            a.micros now / trafficBucketUs < tick := by omega
        simp only [allotted, hout, if_true, saturatingAdd_zero hbounds.1,
          saturatingAdd_zero hbounds.2]
  kept hbytes := (filled_recordTraffic hdownloaded hmaxDownloaded huploaded hmaxUploaded since h
    hbytes).kept

end Record

end RuntimeAccounting

end Daemon
