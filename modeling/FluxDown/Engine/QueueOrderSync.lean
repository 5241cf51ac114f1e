import FluxDown.Base.Run
import FluxDown.Engine.QueueOrder

/-!
# Queue order publication is lossless

Library `Engine`. A client that applies every difference holds the current queue after each
step. The keys a difference adds complete the surviving ones to an increasing sequence along
the queue, so the client's sorted table is the queue with that sequence, whatever the order of
the removals.
-/

namespace Engine.QueueOrder

open Base

/-! ## Key allotment -/

private theorem progression_pairwise (base : Int) {step : Int} (h : 1 ≤ step) (count : Nat) :
    ((List.range count).map fun offset : Nat ↦ base + step * offset).Pairwise (· < ·) := by
  apply List.pairwise_map.mpr
  apply List.pairwise_lt_range.imp
  intro a b hab
  have hmul : step * (a : Int) < step * b := by
    apply Int.mul_lt_mul_of_pos_left <;> omega
  omega

private theorem mem_progression {base step key : Int} {count : Nat} (h : 1 ≤ step)
    (hkey : key ∈ (List.range count).map fun offset : Nat ↦ base + step * offset) :
    base ≤ key ∧ key + step ≤ base + step * count := by
  obtain ⟨offset, hlt, rfl⟩ := List.mem_map.mp hkey
  have hbound : offset + 1 ≤ count := List.mem_range.mp hlt
  have hlow : 0 ≤ step * (offset : Int) := Int.mul_nonneg (by omega) (by omega)
  have hhigh : step * ((offset : Int) + 1) ≤ step * count := by
    apply Int.mul_le_mul_of_nonneg_left <;> omega
  rw [Int.mul_add] at hhigh
  omega

/-- A progression that starts after `prev` and ends before `next`. -/
theorem progression_between {prev next : Option Int} {base step : Int} {count : Nat}
    (h : 1 ≤ step) (hprev : ∀ p ∈ prev, p < base)
    (hnext : ∀ n ∈ next, base + step * count < n + step)
    (hgap : ∀ p ∈ prev, ∀ n ∈ next, p < n) :
    (prev.toList ++ ((List.range count).map fun offset : Nat ↦ base + step * offset) ++
      next.toList).Pairwise (· < ·) := by
  rw [List.append_assoc, List.pairwise_append, List.pairwise_append]
  refine ⟨by cases prev <;> simp, ⟨progression_pairwise base h count, by cases next <;> simp, ?_⟩,
    ?_⟩
  · intro key hkey n hn
    have hend := mem_progression h hkey
    have := hnext n (by simpa using hn)
    omega
  · intro p hp key hkey
    have hp' : p ∈ prev := by simpa using hp
    rcases List.mem_append.mp hkey with hkey | hkey
    · have hstart := mem_progression h hkey
      have := hprev p hp'
      omega
    · exact hgap p hp' key (by simpa using hkey)

private theorem shifted_progression (base step : Int) (count : Nat) :
    ((List.range count).map fun offset : Nat ↦ base + step * ((offset : Int) + 1)) =
      (List.range count).map fun offset : Nat ↦ (base + step) + step * offset := by
  apply List.map_congr_left
  intro offset _
  rw [Int.mul_add]
  omega

private theorem checkedI64_eq {n m : Int} (h : checkedI64 n = some m) : m = n := by
  unfold checkedI64 at h
  split_ifs at h
  exact (Option.some.inj h).symm

/-- Allotted keys increase between their neighbours. -/
theorem allotKeys_spec {prev next : Option Int} {count : Nat} {keys : List Int}
    (h : allotKeys prev next count = some keys) (hgap : ∀ p ∈ prev, ∀ n ∈ next, p < n) :
    keys.length = count ∧ (prev.toList ++ keys ++ next.toList).Pairwise (· < ·) := by
  have hstep : 1 ≤ keyStep := by decide
  unfold allotKeys at h
  split at h
  · next p =>
    simp only [Option.bind_eq_bind, Option.bind_eq_some_iff] at h
    obtain ⟨_, -, last, -, hkeys⟩ := h
    split_ifs at hkeys
    cases hkeys
    refine ⟨by simp, ?_⟩
    rw [shifted_progression]
    apply progression_between hstep
    · simp only [Option.mem_some_iff, forall_eq']
      omega
    · simp
    · exact hgap
  · next n =>
    simp only [Option.bind_eq_bind, Option.bind_eq_some_iff] at h
    obtain ⟨span, hspan, first, hfirst, hkeys⟩ := h
    split_ifs at hkeys
    cases hkeys
    have hbase := checkedI64_eq hfirst
    rw [checkedI64_eq hspan] at hbase
    refine ⟨by simp, ?_⟩
    apply progression_between hstep
    · simp
    · simp only [Option.mem_some_iff, forall_eq']
      omega
    · exact hgap
  · next p n =>
    dsimp only at h
    split_ifs at h with hclosed
    cases h
    have hlt : p < n := hgap p rfl n rfl
    have hquot : (n - p).tdiv (count + 1) = (n - p) / (count + 1) :=
      Int.tdiv_eq_ediv_of_nonneg (by omega)
    rw [hquot] at hclosed ⊢
    have hfits : (n - p) / (count + 1) * ((count : Int) + 1) ≤ n - p :=
      Int.ediv_mul_le _ (by omega)
    rw [Int.mul_add, Int.mul_one] at hfits
    refine ⟨by simp, ?_⟩
    rw [shifted_progression]
    apply progression_between (by omega)
    · simp only [Option.mem_some_iff, forall_eq']
      omega
    · simp only [Option.mem_some_iff, forall_eq']
      omega
    · exact hgap
  · cases h

/-- Allotted keys stay in a range that holds the neighbours and the limits. -/
theorem allotKeys_bounded {prev next : Option Int} {count : Nat} {keys : List Int}
    {lo hi : Int} (h : allotKeys prev next count = some keys)
    (hgap : ∀ p ∈ prev, ∀ n ∈ next, p < n) (hlo : lo ≤ -keyLimit) (hhi : keyLimit ≤ hi)
    (hprev : ∀ p ∈ prev, lo ≤ p ∧ p ≤ hi) (hnext : ∀ n ∈ next, lo ≤ n ∧ n ≤ hi) :
    ∀ key ∈ keys, lo ≤ key ∧ key ≤ hi := by
  obtain ⟨-, hpairwise⟩ := allotKeys_spec h hgap
  obtain ⟨hrun, -, hbelow⟩ := List.pairwise_append.mp hpairwise
  obtain ⟨-, -, habove⟩ := List.pairwise_append.mp hrun
  intro key hkey
  unfold allotKeys at h
  split at h
  · next p =>
    simp only [Option.bind_eq_bind, Option.bind_eq_some_iff] at h
    obtain ⟨span, hspan, last, hlast, hkeys⟩ := h
    split_ifs at hkeys
    cases hkeys
    rw [shifted_progression] at hkey
    have hend := mem_progression (by decide) hkey
    have hstart := habove p (by simp) key (by rwa [shifted_progression])
    have hp := hprev p rfl
    rw [checkedI64_eq hspan] at hlast
    have := checkedI64_eq hlast
    omega
  · next n =>
    simp only [Option.bind_eq_bind, Option.bind_eq_some_iff] at h
    obtain ⟨_, -, first, -, hkeys⟩ := h
    split_ifs at hkeys
    cases hkeys
    have hstart := mem_progression (by decide) hkey
    have hend := hbelow key (List.mem_append_right _ hkey) n (by simp)
    have hn := hnext n rfl
    omega
  · next p n =>
    have hstart := habove p (by simp) key hkey
    have hend := hbelow key (List.mem_append_right _ hkey) n (by simp)
    have hp := hprev p rfl
    have hn := hnext n rfl
    omega
  · cases h

/-! ## Key assignment -/

/-- A key sequence keeps the known keys. -/
def Completes (existing : List (Option Int)) (keys : List Int) : Prop :=
  List.Forall₂ (fun known key ↦ ∀ k ∈ known, k = key) existing keys

/-- The known keys increase, after the key `prev`. -/
def KnownIncreasing (prev : Option Int) (existing : List (Option Int)) : Prop :=
  (prev.toList ++ existing.reduceOption).Pairwise (· < ·)

/-- A list of options starts with the nones it starts with; what follows is empty or starts
with a key. -/
theorem run_split (rest : List (Option Int)) :
    rest = List.replicate (rest.takeWhile Option.isNone).length none ++
        rest.dropWhile Option.isNone ∧
      (rest.dropWhile Option.isNone = [] ∨
        ∃ key tail, rest.dropWhile Option.isNone = some key :: tail) := by
  induction rest with
  | nil => simp
  | cons known rest ih =>
    cases known with
    | some key => simp
    | none =>
      obtain ⟨hsplit, hrest⟩ := ih
      constructor
      · simpa [List.replicate_succ] using hsplit
      · simpa using hrest

private theorem completes_replicate (keys : List Int) :
    Completes (List.replicate keys.length none) keys := by
  induction keys with
  | nil => exact List.Forall₂.nil
  | cons key keys ih => exact List.Forall₂.cons (by simp) ih

/-- The keys of a run and the keys after it. -/
theorem run_keys_pairwise {prev : Option Int} {keys later : List Int}
    {tail : List (Option Int)}
    (hrun : (prev.toList ++ keys ++ tail.head?.join.toList).Pairwise (· < ·))
    (hlater : (prev.toList ++ later).Pairwise (· < ·)) (hcompletes : Completes tail later)
    (htail : tail = [] ∨ ∃ key rest, tail = some key :: rest) :
    (prev.toList ++ (keys ++ later)).Pairwise (· < ·) := by
  obtain ⟨hkeys, -, hnext⟩ := List.pairwise_append.mp hrun
  obtain ⟨hprev, hincreasing, hafter⟩ := List.pairwise_append.mp hlater
  have hbetween : ∀ key ∈ keys, ∀ key' ∈ later, key < key' := by
    rcases htail with rfl | ⟨next, rest, rfl⟩
    · cases hcompletes
      simp
    · cases hcompletes with
      | cons hhead hrest =>
        next first others =>
        have hfirst : next = first := hhead next rfl
        intro key hkey key' hkey'
        have hlt : key < next := hnext key (List.mem_append_right _ hkey) next (by simp)
        rcases List.mem_cons.mp hkey' with rfl | hkey'
        · omega
        · have := (List.pairwise_cons.mp hincreasing).1 key' hkey'
          omega
  rw [← List.append_assoc, List.pairwise_append]
  refine ⟨hkeys, hincreasing, ?_⟩
  intro key hkey key' hkey'
  rcases List.mem_append.mp hkey with hkey | hkey
  · exact hafter key hkey key' hkey'
  · exact hbetween key hkey key' hkey'

private theorem mem_run_entries {keys : List Int} {index i : Nat} {key : Int} :
    (i, key) ∈ (keys.zipIdx index).map Prod.swap ↔ ∃ j, i = index + j ∧ keys[j]? = some key := by
  simp only [List.mem_map, Prod.exists, Prod.swap_prod_mk, Prod.mk.injEq,
    List.mk_mem_zipIdx_iff_le_and_getElem?_sub]
  constructor
  · rintro ⟨_, _, ⟨hle, hget⟩, rfl, rfl⟩
    exact ⟨_, (Nat.add_sub_cancel' hle).symm, hget⟩
  · rintro ⟨j, rfl, hget⟩
    exact ⟨key, index + j, ⟨Nat.le_add_right _ _, by simpa using hget⟩, rfl, rfl⟩

/-- The assigned entries, from `index` on and after the key `prev`, complete the known keys to
the increasing sequence `keys`. -/
structure Assigns (index : Nat) (prev : Option Int) (existing : List (Option Int))
    (assigned : List (Nat × Int)) (keys : List Int) : Prop where
  /-- Known keys stay. -/
  completes : Completes existing keys
  /-- The keys increase. -/
  increasing : (prev.toList ++ keys).Pairwise (· < ·)
  /-- Indices are assigned once, in order. -/
  indices : (assigned.map Prod.fst).Pairwise (· < ·)
  /-- Exactly the missing keys are assigned. -/
  mem_iff : ∀ i key, (i, key) ∈ assigned ↔
    ∃ j, i = index + j ∧ existing[j]? = some none ∧ keys[j]? = some key

private theorem Assigns.known {index : Nat} {prev : Option Int} {key : Int}
    {rest : List (Option Int)} {assigned : List (Nat × Int)} {keys : List Int}
    (hprev : ∀ p ∈ prev, p < key) (h : Assigns (index + 1) (some key) rest assigned keys) :
    Assigns index prev (some key :: rest) assigned (key :: keys) where
  completes := List.Forall₂.cons (by simp) h.completes
  increasing := by
    refine List.pairwise_append.mpr ⟨by cases prev <;> simp, h.increasing, ?_⟩
    intro p hp key' hkey'
    have hlt : p < key := hprev p (by simpa using hp)
    rcases List.mem_cons.mp hkey' with rfl | hkey'
    · exact hlt
    · exact hlt.trans ((List.pairwise_cons.mp h.increasing).1 key' hkey')
  indices := h.indices
  mem_iff := by
    intro i key'
    rw [h.mem_iff]
    constructor
    · rintro ⟨j, rfl, hnone, hget⟩
      exact ⟨j + 1, by omega, by simpa using hnone, by simpa using hget⟩
    · rintro ⟨j, rfl, hnone, hget⟩
      cases j with
      | zero => simp at hnone
      | succ j => exact ⟨j, by omega, by simpa using hnone, by simpa using hget⟩

private theorem Assigns.run {index : Nat} {prev : Option Int} {tail : List (Option Int)}
    {keys later : List Int} {assigned : List (Nat × Int)}
    (hrun : (prev.toList ++ keys ++ tail.head?.join.toList).Pairwise (· < ·))
    (htail : tail = [] ∨ ∃ key rest, tail = some key :: rest)
    (h : Assigns (index + keys.length) prev tail assigned later) :
    Assigns index prev (List.replicate keys.length none ++ tail)
      ((keys.zipIdx index).map Prod.swap ++ assigned) (keys ++ later) where
  completes := List.rel_append (completes_replicate keys) h.completes
  increasing := run_keys_pairwise hrun h.increasing h.completes htail
  indices := by
    rw [List.map_append, List.pairwise_append]
    have hrange : ((keys.zipIdx index).map Prod.swap).map Prod.fst =
        List.range' index keys.length := by
      rw [List.map_map, ← List.zipIdx_map_snd index keys]
      rfl
    refine ⟨?_, h.indices, ?_⟩
    · rw [hrange]
      exact List.pairwise_lt_range'
    · intro i hi i' hi'
      rw [hrange, List.mem_range'_1] at hi
      obtain ⟨⟨i', key⟩, hmem, rfl⟩ := List.mem_map.mp hi'
      obtain ⟨j, hj, -⟩ := (h.mem_iff i' key).mp hmem
      dsimp only
      omega
  mem_iff := by
    intro i key
    rw [List.mem_append, mem_run_entries, h.mem_iff]
    constructor
    · rintro (⟨j, rfl, hget⟩ | ⟨j, rfl, hnone, hget⟩)
      · have hlt : j < keys.length := (List.getElem?_eq_some_iff.mp hget).1
        exact ⟨j, rfl, by simp [List.getElem?_append_left, hlt],
          by rw [List.getElem?_append_left hlt, hget]⟩
      · refine ⟨keys.length + j, by omega, ?_, ?_⟩
        · rw [List.getElem?_append_right (by simp)]
          simpa using hnone
        · rw [List.getElem?_append_right (by simp)]
          simpa using hget
    · rintro ⟨j, rfl, hnone, hget⟩
      by_cases hlt : j < keys.length
      · rw [List.getElem?_append_left hlt] at hget
        exact Or.inl ⟨j, rfl, hget⟩
      · rw [List.getElem?_append_right (by simpa using hlt)] at hnone
        rw [List.getElem?_append_right (by omega)] at hget
        exact Or.inr ⟨j - keys.length, by omega, by simpa using hnone, hget⟩

/-- Known keys increase across a run of new tasks. -/
theorem run_known {prev : Option Int} {rest : List (Option Int)}
    (hknown : KnownIncreasing prev (none :: rest)) :
    (∀ p ∈ prev, ∀ n ∈ (rest.dropWhile Option.isNone).head?.join, p < n) ∧
      KnownIncreasing prev (rest.dropWhile Option.isNone) := by
  obtain ⟨hsplit, htail⟩ := run_split rest
  rw [KnownIncreasing, List.reduceOption_cons_of_none, hsplit, List.reduceOption_append,
    List.reduceOption_replicate_none, List.nil_append] at hknown
  refine ⟨?_, hknown⟩
  intro p hp n hn
  rcases htail with hnil | ⟨key, others, hcons⟩
  · rw [hnil] at hn
    simp at hn
  · rw [hcons] at hn hknown
    obtain ⟨-, -, hbefore⟩ := List.pairwise_append.mp hknown
    have hkey : key = n := by simpa using hn
    apply hbefore p (by simpa using hp) n
    rw [List.reduceOption_cons_of_some, hkey]
    exact List.mem_cons_self

/-- The assigned keys complete the known ones to an increasing sequence. -/
theorem assignFrom_spec {index : Nat} {prev : Option Int} {existing : List (Option Int)}
    {assigned : List (Nat × Int)} (h : assignFrom index prev existing = some assigned)
    (hknown : KnownIncreasing prev existing) :
    ∃ keys, Assigns index prev existing assigned keys := by
  induction index, prev, existing using assignFrom.induct generalizing assigned with
  | case1 index prev =>
    rw [assignFrom] at h
    cases h
    exact ⟨[], List.Forall₂.nil, by cases prev <;> simp, by simp, by simp⟩
  | case2 index prev key rest ih =>
    rw [assignFrom] at h
    rw [KnownIncreasing, List.reduceOption_cons_of_some] at hknown
    obtain ⟨-, hrest, hbefore⟩ := List.pairwise_append.mp hknown
    obtain ⟨keys, hassigns⟩ := ih h hrest
    exact ⟨key :: keys, hassigns.known fun p hp ↦ hbefore p (by simpa using hp) key (by simp)⟩
  | case3 index prev rest count tail =>
    rename_i ih
    rw [assignFrom] at h
    simp only [Option.bind_eq_bind, Option.bind_eq_some_iff] at h
    obtain ⟨keys, hallot, assigned', hassign, heq⟩ := h
    cases heq
    obtain ⟨hsplit, htail⟩ := run_split rest
    obtain ⟨hgap, hknown'⟩ := run_known hknown
    have hexisting : none :: rest = List.replicate count none ++ tail := by
      rw [List.replicate_succ, List.cons_append, ← hsplit]
    obtain ⟨hlength, hrun⟩ := allotKeys_spec hallot hgap
    obtain ⟨later, hassigns⟩ := ih hassign hknown'
    have hcount : keys.length = count := hlength
    rw [hexisting, ← hcount]
    rw [← hcount] at hassigns
    exact ⟨keys ++ later, Assigns.run hrun htail hassigns⟩

/-- Assigned keys stay in a range that holds the known keys and the limits. -/
theorem assignFrom_bounded {index : Nat} {prev : Option Int}
    {existing : List (Option Int)} {assigned : List (Nat × Int)} {lo hi : Int}
    (h : assignFrom index prev existing = some assigned) (hknown : KnownIncreasing prev existing)
    (hlo : lo ≤ -keyLimit) (hhi : keyLimit ≤ hi) (hprev : ∀ p ∈ prev, lo ≤ p ∧ p ≤ hi)
    (hexisting : ∀ key, some key ∈ existing → lo ≤ key ∧ key ≤ hi) :
    ∀ entry ∈ assigned, lo ≤ entry.2 ∧ entry.2 ≤ hi := by
  induction index, prev, existing using assignFrom.induct generalizing assigned with
  | case1 index prev =>
    rw [assignFrom] at h
    cases h
    simp
  | case2 index prev key rest ih =>
    rw [assignFrom] at h
    rw [KnownIncreasing, List.reduceOption_cons_of_some] at hknown
    apply ih h (List.pairwise_append.mp hknown).2.1
    · simpa using hexisting key List.mem_cons_self
    · exact fun key' hkey' ↦ hexisting key' (List.mem_cons_of_mem _ hkey')
  | case3 index prev rest count tail =>
    rename_i ih
    rw [assignFrom] at h
    simp only [Option.bind_eq_bind, Option.bind_eq_some_iff] at h
    obtain ⟨keys, hallot, assigned', hassign, heq⟩ := h
    cases heq
    obtain ⟨hgap, htail⟩ := run_known hknown
    have hmem : ∀ key, some key ∈ tail → lo ≤ key ∧ key ≤ hi := fun key hkey ↦
      hexisting key (List.mem_cons_of_mem _ ((List.dropWhile_sublist _).mem hkey))
    have hnext : ∀ n ∈ tail.head?.join, lo ≤ n ∧ n ≤ hi := by
      intro n hn
      apply hmem
      cases htail : tail with
      | nil => simp [htail] at hn
      | cons known others =>
        rw [htail] at hn
        simp_all
    intro entry hentry
    rcases List.mem_append.mp hentry with hentry | hentry
    · obtain ⟨_, -, hget⟩ := mem_run_entries.mp hentry
      exact allotKeys_bounded hallot hgap hlo hhi hprev hnext _ (List.mem_of_getElem? hget)
    · exact ih hassign htail hprev hmem entry hentry

/-! ## Rows -/

section Rows

variable {Id : Type}

/-- The queue with its keys. -/
def rows (ordered : List Id) (keys : List Int) : List (QueueOrderEntry Id) :=
  List.zipWith QueueOrderEntry.mk ordered keys

/-- New tasks with their keys. -/
def addedRows (ordered : List Id) (assigned : List (Nat × Int)) : List (QueueOrderEntry Id) :=
  assigned.filterMap fun (index, key) ↦ ordered[index]?.map fun id ↦ QueueOrderEntry.mk id key

private theorem mem_rows {ordered : List Id} {keys : List Int} {id : Id} {key : Int} :
    ⟨id, key⟩ ∈ rows ordered keys ↔ ∃ j : Nat, ordered[j]? = some id ∧ keys[j]? = some key := by
  rw [rows, List.mem_iff_getElem?]
  apply exists_congr
  intro j
  rw [List.getElem?_zipWith]
  cases ordered[j]? <;> cases keys[j]? <;> simp

private theorem nodup_addedRows {ordered : List Id} {assigned : List (Nat × Int)}
    (hnodup : ordered.Nodup)
    (h : (assigned.map Prod.fst).Pairwise (· < ·)) :
    ((addedRows ordered assigned).map QueueOrderEntry.taskId).Nodup := by
  rw [List.pairwise_map] at h
  apply List.pairwise_map.mpr
  apply List.Pairwise.filterMap _ _ h
  intro ⟨i, _⟩ ⟨j, _⟩ hlt row hrow row' hrow' heq
  obtain ⟨id, hid, rfl⟩ := Option.map_eq_some_iff.mp hrow
  obtain ⟨id', hid', rfl⟩ := Option.map_eq_some_iff.mp hrow'
  obtain ⟨hi, rfl⟩ := List.getElem?_eq_some_iff.mp hid
  obtain ⟨hj, rfl⟩ := List.getElem?_eq_some_iff.mp hid'
  have hij : i = j := (hnodup.getElem_inj_iff).mp heq
  exact absurd hij hlt.ne

private theorem ids_rows {ordered : List Id} {keys : List Int}
    (h : keys.length = ordered.length) :
    (rows ordered keys).map QueueOrderEntry.taskId = ordered := by
  apply List.ext_getElem <;> simp [rows, h]

end Rows

/-! ## One publication -/

section Publisher

variable {Id : Type} [LinearOrder Id]

/-- The publisher and a client agree on a queue. -/
structure Synced (publisher : QueueOrderPublisher Id) (published : List (QueueOrderEntry Id))
    (ordered : List Id) : Prop where
  /-- The client lists the queue. -/
  ids : published.map QueueOrderEntry.taskId = ordered
  /-- Its keys increase. -/
  increasing : Increasing QueueOrderEntry.order published
  /-- The publisher knows exactly these keys. -/
  keys : ∀ id key, publisher.keys.get? id = some key ↔ ⟨id, key⟩ ∈ published

private theorem existingKeys_spec {keys : SortedMap Id Int} {ordered : List Id}
    {last : Option Int} {existing : List (Option Int)}
    (h : existingKeys keys last ordered = some existing) :
    existing = ordered.map keys.get? ∧ KnownIncreasing last existing := by
  induction ordered generalizing last existing with
  | nil =>
    cases h
    exact ⟨rfl, by cases last <;> simp [KnownIncreasing]⟩
  | cons id ordered ih =>
    rw [existingKeys] at h
    split at h
    · next hget =>
      obtain ⟨existing, hrest, rfl⟩ := Option.map_eq_some_iff.mp h
      obtain ⟨rfl, hknown⟩ := ih hrest
      refine ⟨by rw [List.map_cons, hget], ?_⟩
      rwa [KnownIncreasing, List.reduceOption_cons_of_none]
    · next key hget =>
      split_ifs at h with hbreak
      obtain ⟨existing, hrest, rfl⟩ := Option.map_eq_some_iff.mp h
      obtain ⟨rfl, hknown⟩ := ih hrest
      refine ⟨by rw [List.map_cons, hget], ?_⟩
      rw [KnownIncreasing, List.reduceOption_cons_of_some]
      cases last with
      | none => exact hknown
      | some last =>
        have hlt : last < key := by simpa using hbreak
        refine List.pairwise_cons.mpr ⟨?_, hknown⟩
        intro key' hkey'
        rcases List.mem_cons.mp hkey' with rfl | hkey'
        · exact hlt
        · exact hlt.trans ((List.pairwise_cons.mp hknown).1 key' hkey')

private theorem nodup_eraseDups (ids : List Id) : ids.eraseDups.Nodup := by
  induction hn : ids.length using Nat.strongRecOn generalizing ids with
  | ind n ih =>
    cases ids with
    | nil => simp
    | cons id ids =>
      have hshorter : (ids.filter (!· == id)).length < n := by
        have hle := List.length_filter_le (!· == id) ids
        rw [List.length_cons] at hn
        omega
      rw [List.eraseDups_cons, List.nodup_cons]
      exact ⟨by simp [List.mem_eraseDups], ih _ hshorter _ rfl⟩

private theorem synced_of_entries {published : List (QueueOrderEntry Id)}
    (h : Increasing QueueOrderEntry.order published)
    (hnodup : (published.map QueueOrderEntry.taskId).Nodup) :
    Synced ⟨SortedMap.empty.insertAll (published.map fun row ↦ (row.taskId, row.order))⟩ published
      (published.map QueueOrderEntry.taskId) where
  ids := rfl
  increasing := h
  keys := by
    intro id key
    rw [SortedMap.get?_insertAll_eq_some_iff _ (by rwa [List.map_map])]
    simp only [SortedMap.get?_empty, reduceCtorEq, and_false, or_false, List.mem_map,
      Prod.mk.injEq]
    constructor
    · rintro ⟨⟨_, _⟩, hmem, rfl, rfl⟩
      exact hmem
    · intro hmem
      exact ⟨_, hmem, rfl, rfl⟩

/-- A fresh table is in sync. -/
theorem reassign_synced {ordered : List Id} (hnodup : ordered.Nodup)
    (published : List (QueueOrderEntry Id)) :
    Synced (reassign ordered).2 (applyDelta published (reassign ordered).1) ordered := by
  have hids : (applyDelta published (reassign ordered).1).map QueueOrderEntry.taskId =
      ordered := by
    apply List.ext_getElem <;> simp [reassign, applyDelta]
  have hincreasing : Increasing QueueOrderEntry.order
      (applyDelta published (reassign ordered).1) := by
    apply List.pairwise_iff_getElem.mpr
    intro i j hi hj hij
    simp only [reassign, applyDelta, List.getElem_map, List.getElem_mapIdx, keyStep]
    omega
  have hsynced := synced_of_entries hincreasing (hids.symm ▸ hnodup)
  rw [hids] at hsynced
  simpa [reassign, applyDelta, Function.comp_def] using hsynced

/-! ## Incremental differences -/

section Incremental

variable {publisher : QueueOrderPublisher Id} {ordered : List Id} {assigned : List (Nat × Int)}
  {keys : List Int}

private theorem length_keys
    (h : Assigns 0 none (ordered.map publisher.keys.get?) assigned keys) :
    keys.length = ordered.length := by
  have hlength := h.completes.length_eq
  rw [List.length_map] at hlength
  exact hlength.symm

/-- A known key of a queued task is its key. -/
theorem getElem?_keys_of_known
    (h : Assigns 0 none (ordered.map publisher.keys.get?) assigned keys) {j : Nat} {id : Id}
    {key : Int} (hid : ordered[j]? = some id) (hkey : publisher.keys.get? id = some key) :
    keys[j]? = some key := by
  obtain ⟨hj, rfl⟩ := List.getElem?_eq_some_iff.mp hid
  have hj' : j < keys.length := by rwa [length_keys h]
  have hknown := h.completes.get (by simpa using hj) hj' key (by simpa using hkey)
  rw [List.getElem?_eq_getElem hj']
  exact congrArg some hknown.symm

private theorem increasing_rows
    (h : Assigns 0 none (ordered.map publisher.keys.get?) assigned keys) :
    Increasing QueueOrderEntry.order (rows ordered keys) := by
  have hkeys : keys.Pairwise (· < ·) := by simpa using h.increasing
  apply List.pairwise_iff_getElem.mpr
  intro i j hi hj hij
  simp only [rows, List.getElem_zipWith]
  exact List.pairwise_iff_getElem.mp hkeys i j _ _ hij

private theorem mem_addedRows
    (h : Assigns 0 none (ordered.map publisher.keys.get?) assigned keys) {id : Id} {key : Int} :
    ⟨id, key⟩ ∈ addedRows ordered assigned ↔
      ∃ j : Nat, ordered[j]? = some id ∧ publisher.keys.get? id = none ∧ keys[j]? = some key := by
  simp only [addedRows, List.mem_filterMap, Prod.exists, Option.map_eq_some_iff,
    QueueOrderEntry.mk.injEq, h.mem_iff, Nat.zero_add]
  constructor
  · rintro ⟨j, _, ⟨_, rfl, hnone, hget⟩, _, hid, rfl, rfl⟩
    rw [List.getElem?_map, hid] at hnone
    exact ⟨j, hid, by simpa using hnone, hget⟩
  · rintro ⟨j, hid, hnone, hget⟩
    exact ⟨j, key, ⟨j, rfl, by rw [List.getElem?_map, hid, Option.map_some, hnone], hget⟩, id, hid,
      rfl, rfl⟩

private theorem mem_rows_iff
    (h : Assigns 0 none (ordered.map publisher.keys.get?) assigned keys) {id : Id} {key : Int} :
    ⟨id, key⟩ ∈ rows ordered keys ↔
      id ∈ ordered ∧ publisher.keys.get? id = some key ∨ ⟨id, key⟩ ∈ addedRows ordered assigned := by
  rw [mem_rows, mem_addedRows h]
  constructor
  · rintro ⟨j, hid, hget⟩
    cases hknown : publisher.keys.get? id with
    | none => exact Or.inr ⟨j, hid, rfl, hget⟩
    | some known =>
      rw [getElem?_keys_of_known h hid hknown] at hget
      exact Or.inl ⟨List.mem_of_getElem? hid, hget⟩
  · rintro (⟨hmem, hknown⟩ | ⟨j, hid, -, hget⟩)
    · obtain ⟨j, hid⟩ := List.mem_iff_getElem?.mp hmem
      exact ⟨j, hid, getElem?_keys_of_known h hid hknown⟩
    · exact ⟨j, hid, hget⟩

/-- Rows with new, distinct tasks replace what the table says of them. -/
theorem foldl_override (added table : List (QueueOrderEntry Id))
    (hnodup : (added.map QueueOrderEntry.taskId).Nodup) :
    added.foldl (fun table entry ↦ table.filter (fun row ↦ row.taskId ≠ entry.taskId) ++ [entry])
        table =
      table.filter (fun row ↦ row.taskId ∉ added.map QueueOrderEntry.taskId) ++ added := by
  induction added generalizing table with
  | nil => simp
  | cons entry added ih =>
    rw [List.map_cons, List.nodup_cons] at hnodup
    rw [List.foldl_cons, ih _ hnodup.2, List.filter_append, List.filter_filter,
      List.append_assoc]
    congr 1
    · apply List.filter_congr
      intro row _
      simp only [List.map_cons, List.mem_cons, not_or, Bool.decide_and, ne_eq]
      exact Bool.and_comm _ _
    · rw [List.filter_cons_of_pos (by simpa using hnodup.1)]
      rfl

variable {published : List (QueueOrderEntry Id)} {previous : List Id}

private theorem known_of_mem_published (hsync : Synced publisher published previous)
    {row : QueueOrderEntry Id} (h : row ∈ published) :
    publisher.keys.get? row.taskId = some row.order :=
  (hsync.keys row.taskId row.order).mpr h

/-- Removing what left the queue and overriding with the new rows leaves the queue. -/
theorem overridden_perm_rows (hsync : Synced publisher published previous)
    (hnodup : ordered.Nodup)
    (h : Assigns 0 none (ordered.map publisher.keys.get?) assigned keys) {removed : List Id}
    (hremoved : ∀ id key, publisher.keys.get? id = some key → (id ∈ removed ↔ id ∉ ordered)) :
    ((published.filter fun row ↦ row.taskId ∉ removed).filter (fun row ↦
      row.taskId ∉ (addedRows ordered assigned).map QueueOrderEntry.taskId) ++
        addedRows ordered assigned).Perm (rows ordered keys) := by
  have hincreasing := increasing_rows h
  have hfresh : ∀ row ∈ addedRows ordered assigned, publisher.keys.get? row.taskId = none := by
    intro row hrow
    obtain ⟨_, -, hnone, -⟩ := (mem_addedRows h).mp hrow
    exact hnone
  have hadded := nodup_addedRows hnodup h.indices
  apply (List.perm_ext_iff_of_nodup _ hincreasing.nodup).mpr
  · intro ⟨id, key⟩
    rw [List.mem_append, List.mem_filter, List.mem_filter, mem_rows_iff h]
    apply or_congr_left
    simp only [decide_eq_true_eq, ← hsync.keys]
    constructor
    · rintro ⟨⟨hknown, hkept⟩, -⟩
      have hmem := (hremoved id key hknown).not.mp hkept
      exact ⟨not_not.mp hmem, hknown⟩
    · rintro ⟨hmem, hknown⟩
      refine ⟨⟨hknown, (hremoved id key hknown).not.mpr (not_not.mpr hmem)⟩, ?_⟩
      intro hnew
      obtain ⟨row, hrow, heq⟩ := List.mem_map.mp hnew
      have hnone := hfresh row hrow
      rw [show row.taskId = id from heq, hknown] at hnone
      cases hnone
  · refine List.nodup_append'.mpr ⟨(hsync.increasing.nodup.filter _).filter _, hadded.of_map, ?_⟩
    intro row hrow hnew
    have hknown := known_of_mem_published hsync (List.mem_filter.mp (List.mem_filter.mp hrow).1).1
    rw [hfresh row hnew] at hknown
    cases hknown

/-- The known tasks that left the queue, found without a search if none did. -/
theorem mem_removed_iff (hnodup : ordered.Nodup) (hash : HashOrder Id) {id : Id}
    {key : Int} (hknown : publisher.keys.get? id = some key) :
    (id ∈ if (ordered.map publisher.keys.get?).countP Option.isSome <
        publisher.keys.entries.length then
      hash.order (publisher.keys.keys.filter (· ∉ ordered)) else []) ↔ id ∉ ordered := by
  have hkey : id ∈ publisher.keys.keys := publisher.keys.mem_keys_iff.mpr (by simp [hknown])
  split_ifs with hless
  · rw [(hash.perm _).mem_iff, List.mem_filter]
    simp [hkey]
  · -- as many tasks are retained as are known, so all known tasks are retained
    have hsubset : ordered.filter (fun id ↦ (publisher.keys.get? id).isSome) ⊆
        publisher.keys.keys := by
      intro id' hid'
      exact publisher.keys.mem_keys_iff.mpr (by simpa using (List.mem_filter.mp hid').2)
    have hlength : publisher.keys.keys.length ≤
        (ordered.filter (fun id ↦ (publisher.keys.get? id).isSome)).length := by
      rw [← List.countP_eq_length_filter]
      rw [List.countP_map] at hless
      simpa [SortedMap.keys, Function.comp_def] using hless
    have hperm := (List.subperm_of_subset (hnodup.filter _) hsubset).perm_of_length_le hlength
    have hmem := (List.mem_filter.mp (hperm.mem_iff.mpr hkey)).1
    simp [hmem]

end Incremental

/-- An incremental difference leads to the queue with its keys. -/
theorem incremental_synced {publisher : QueueOrderPublisher Id} {ordered : List Id}
    {assigned : List (Nat × Int)} {keys : List Int} (hnodup : ordered.Nodup)
    (h : Assigns 0 none (ordered.map publisher.keys.get?) assigned keys) {removed : List Id}
    (hremoved : ∀ id key, publisher.keys.get? id = some key → (id ∈ removed ↔ id ∉ ordered)) :
    Synced ⟨(publisher.keys.eraseAll removed).insertAll
        ((addedRows ordered assigned).map fun entry ↦ (entry.taskId, entry.order))⟩
      (rows ordered keys) ordered where
  ids := ids_rows (length_keys h)
  increasing := increasing_rows h
  keys := by
    intro id key
    have hadded := nodup_addedRows hnodup h.indices
    have hpair : ∀ id key, (id, key) ∈ (addedRows ordered assigned).map (fun entry ↦
        (entry.taskId, entry.order)) ↔ ⟨id, key⟩ ∈ addedRows ordered assigned := by
      intro id key
      simp only [List.mem_map, Prod.mk.injEq]
      constructor
      · rintro ⟨⟨_, _⟩, hmem, rfl, rfl⟩
        exact hmem
      · intro hmem
        exact ⟨_, hmem, rfl, rfl⟩
    rw [SortedMap.get?_insertAll_eq_some_iff _ (by rwa [List.map_map]), hpair, mem_rows_iff h,
      or_comm]
    apply or_congr_left
    rw [SortedMap.get?_eraseAll]
    constructor
    · rintro ⟨-, hkept⟩
      split_ifs at hkept with hgone
      exact ⟨not_not.mp ((hremoved id key hkept).not.mp hgone), hkept⟩
    · rintro ⟨hmem, hknown⟩
      have hgone : id ∉ removed := (hremoved id key hknown).not.mpr (not_not.mpr hmem)
      refine ⟨?_, by rw [if_neg hgone, hknown]⟩
      intro hnew
      obtain ⟨⟨_, key'⟩, hentry, rfl⟩ := List.mem_map.mp hnew
      obtain ⟨_, -, hnone, -⟩ := (mem_addedRows h).mp ((hpair _ key').mp hentry)
      rw [hnone] at hknown
      cases hknown

private theorem published_nil {publisher : QueueOrderPublisher Id}
    {published : List (QueueOrderEntry Id)} {previous : List Id}
    (hsync : Synced publisher published previous)
    (hnone : publisher.keys.entries.isEmpty = true) : published = [] := by
  apply List.eq_nil_iff_forall_not_mem.mpr
  intro row hrow
  have hentry := publisher.keys.get?_eq_some_iff.mp (known_of_mem_published hsync hrow)
  rw [List.isEmpty_iff.mp hnone] at hentry
  cases hentry

/-- A publication keeps the client in sync, and without a full table it keeps keys. -/
theorem diff_synced {publisher : QueueOrderPublisher Id}
    {published : List (QueueOrderEntry Id)} {previous : List Id}
    (hsync : Synced publisher published previous) (hash : HashOrder Id) (queue : List Id) :
    Synced (publisher.diff hash queue).2 (applyDelta published (publisher.diff hash queue).1)
        queue.eraseDups ∧
      ((∀ positions, (publisher.diff hash queue).1 ≠ .full positions) → ∀ row ∈ published,
        row.taskId ∈ queue → row ∈ applyDelta published (publisher.diff hash queue).1) := by
  have hnodup := nodup_eraseDups queue
  have hreassigned : Synced (reassign queue.eraseDups).2
      (applyDelta published (reassign queue.eraseDups).1) queue.eraseDups ∧
      ((∀ positions, (reassign queue.eraseDups).1 ≠ .full positions) → ∀ row ∈ published,
        row.taskId ∈ queue → row ∈ applyDelta published (reassign queue.eraseDups).1) :=
    ⟨reassign_synced hnodup published, fun hfull ↦ absurd rfl (hfull _)⟩
  unfold QueueOrderPublisher.diff
  dsimp only
  split_ifs with hempty hnone hnone
  · have hnil := published_nil hsync hnone
    refine ⟨⟨?_, hsync.increasing, hsync.keys⟩, fun _ row hrow _ ↦ hrow⟩
    rw [hnil, List.isEmpty_iff.mp hempty]
    rfl
  · refine ⟨?_, fun hfull ↦ absurd rfl (hfull _)⟩
    rw [List.isEmpty_iff.mp hempty]
    exact ⟨rfl, List.Pairwise.nil, by simp [applyDelta]⟩
  · exact hreassigned
  · cases hexisting : existingKeys publisher.keys none queue.eraseDups with
    | none => exact hreassigned
    | some existing =>
      dsimp only
      cases hassigned : assignNewKeys existing with
      | none => exact hreassigned
      | some assigned =>
        dsimp only
        obtain ⟨rfl, hknown⟩ := existingKeys_spec hexisting
        obtain ⟨keys, h⟩ := assignFrom_spec hassigned hknown
        have hremoved := fun id key (hget : publisher.keys.get? id = some key) ↦
          mem_removed_iff hnodup hash hget
        generalize hgone : (if (queue.eraseDups.map publisher.keys.get?).countP Option.isSome <
            publisher.keys.entries.length then
          hash.order (publisher.keys.keys.filter (· ∉ queue.eraseDups)) else []) = removed at *
        have hperm := overridden_perm_rows hsync hnodup h hremoved
        have hsynced := incremental_synced hnodup h hremoved
        have hkept : ∀ row ∈ published, row.taskId ∈ queue → row ∈ rows queue.eraseDups keys := by
          intro row hrow hmem
          exact (mem_rows_iff h).mpr (Or.inl ⟨List.mem_eraseDups.mpr hmem,
            known_of_mem_published hsync hrow⟩)
        split_ifs with hsame
        · -- nothing removed or added: the table is the queue with its keys already
          rw [Bool.and_eq_true, List.isEmpty_iff, List.isEmpty_iff] at hsame
          obtain ⟨rfl, rfl⟩ := hsame
          have htable : published = rows queue.eraseDups keys := by
            apply hsync.increasing.eq_of_perm (increasing_rows h)
            simpa [addedRows] using hperm
          refine ⟨⟨?_, hsync.increasing, hsync.keys⟩, fun _ row hrow _ ↦ hrow⟩
          exact (congrArg _ htable).trans hsynced.ids
        · have htable : applyDelta published
              (.incremental removed (addedRows queue.eraseDups assigned)) =
                rows queue.eraseDups keys := by
            rw [applyDelta, foldl_override _ _ (nodup_addedRows hnodup h.indices)]
            exact sortByRank_eq (increasing_rows h) hperm
          refine ⟨?_, fun _ row hrow hmem ↦ ?_⟩
          · exact htable ▸ hsynced
          · exact htable ▸ hkept row hrow hmem

/-! ## Range of the keys -/

private theorem mem_foldl_override {added table : List (QueueOrderEntry Id)}
    {row : QueueOrderEntry Id}
    (h : row ∈ added.foldl
      (fun table entry ↦ table.filter (fun row ↦ row.taskId ≠ entry.taskId) ++ [entry]) table) :
    row ∈ table ∨ row ∈ added := by
  induction added generalizing table with
  | nil => exact Or.inl h
  | cons entry added ih =>
    rcases ih h with h | h
    · rcases List.mem_append.mp h with h | h
      · exact Or.inl (List.mem_filter.mp h).1
      · exact Or.inr (by simp_all)
    · exact Or.inr (List.mem_cons_of_mem _ h)

/-- Keys after a publication stay in a range that holds the known keys, the limits and a
fresh table of the queue. -/
theorem diff_bounded {publisher : QueueOrderPublisher Id}
    {published : List (QueueOrderEntry Id)} {previous : List Id} {lo hi : Int}
    (hsync : Synced publisher published previous)
    (hbounded : ∀ row ∈ published, lo ≤ row.order ∧ row.order ≤ hi) (hlo : lo ≤ -keyLimit)
    (hhi : keyLimit ≤ hi) (hash : HashOrder Id) {queue : List Id}
    (hlength : queue.eraseDups.length * keyStep ≤ hi) :
    ∀ row ∈ applyDelta published (publisher.diff hash queue).1,
      lo ≤ row.order ∧ row.order ≤ hi := by
  have hreassigned : ∀ row ∈ applyDelta published (reassign queue.eraseDups).1,
      lo ≤ row.order ∧ row.order ≤ hi := by
    intro row hrow
    obtain ⟨i, hi', rfl⟩ := List.mem_iff_getElem.mp hrow
    simp only [reassign, applyDelta, List.length_map, List.length_mapIdx] at hi'
    simp only [reassign, applyDelta, List.getElem_map, List.getElem_mapIdx]
    simp only [keyStep, keyLimit] at hlo hlength ⊢
    omega
  unfold QueueOrderPublisher.diff
  dsimp only
  split_ifs with hempty hnone hnone
  · exact hbounded
  · simp [applyDelta]
  · exact hreassigned
  · cases hexisting : existingKeys publisher.keys none queue.eraseDups with
    | none => exact hreassigned
    | some existing =>
      dsimp only
      cases hassigned : assignNewKeys existing with
      | none => exact hreassigned
      | some assigned =>
        dsimp only
        obtain ⟨rfl, hknown⟩ := existingKeys_spec hexisting
        have hnew := assignFrom_bounded hassigned hknown hlo hhi (by simp) (by
          intro key hkey
          obtain ⟨id, -, hget⟩ := List.mem_map.mp hkey
          exact hbounded ⟨id, key⟩ ((hsync.keys id key).mp hget))
        generalize (if (queue.eraseDups.map publisher.keys.get?).countP Option.isSome <
            publisher.keys.entries.length then
          hash.order (publisher.keys.keys.filter (· ∉ queue.eraseDups)) else []) = removed
        split_ifs
        · exact hbounded
        · intro row hrow
          have hmem := (List.mergeSort_perm _ _).mem_iff.mp hrow
          rcases mem_foldl_override hmem with hold | hadded
          · exact hbounded row (List.mem_filter.mp hold).1
          · obtain ⟨⟨index, key⟩, hentry, hrow⟩ := List.mem_filterMap.mp hadded
            obtain ⟨id, -, rfl⟩ := Option.map_eq_some_iff.mp hrow
            exact hnew (index, key) hentry

/-! ## Every publication -/

private theorem new_synced : Synced (QueueOrderPublisher.new : QueueOrderPublisher Id) [] [] where
  ids := rfl
  increasing := List.Pairwise.nil
  keys := by simp [QueueOrderPublisher.new]

private theorem run_synced (steps : List (HashOrder Id × List Id)) :
    ∃ ordered, Synced (run Publication.publish Publication.new steps).publisher
      (run Publication.publish Publication.new steps).published ordered := by
  have hstep : ∀ (p : Publication Id) step, (∃ ordered, Synced p.publisher p.published ordered) →
      True → ∃ ordered, Synced (p.publish step).publisher (p.publish step).published ordered := by
    rintro p step ⟨ordered, hsync⟩ -
    exact ⟨_, (diff_synced hsync step.1 step.2).1⟩
  exact run_invariant hstep ⟨[], new_synced⟩
    (EveryStep.of_forall_mem (fun _ _ _ ↦ trivial) Publication.new)

/-- Keys stay within the limits or the fresh table of a queue as long as the longest: no `i64`
operation on them wraps while queues have fewer than `2 ^ 42` tasks. -/
theorem publish_keys_bounded {n : Nat} (steps : List (HashOrder Id × List Id))
    (h : ∀ step ∈ steps, step.2.eraseDups.length ≤ n) :
    ∀ row ∈ (run Publication.publish Publication.new steps).published,
      -keyLimit ≤ row.order ∧ row.order ≤ max keyLimit (n * keyStep) := by
  have hstep : ∀ (p : Publication Id) (step : HashOrder Id × List Id),
      (∃ ordered, Synced p.publisher p.published ordered) ∧
        (∀ row ∈ p.published, -keyLimit ≤ row.order ∧ row.order ≤ max keyLimit (n * keyStep)) →
      step.2.eraseDups.length ≤ n →
      (∃ ordered, Synced (p.publish step).publisher (p.publish step).published ordered) ∧
        ∀ row ∈ (p.publish step).published,
          -keyLimit ≤ row.order ∧ row.order ≤ max keyLimit (n * keyStep) := by
    rintro p step ⟨⟨ordered, hsync⟩, hbounded⟩ hlength
    refine ⟨⟨_, (diff_synced hsync step.1 step.2).1⟩, ?_⟩
    apply diff_bounded hsync hbounded (Int.le_refl _) (Int.le_max_left _ _)
    simp only [keyStep]
    omega
  exact (run_invariant hstep ⟨⟨[], new_synced⟩, by simp [Publication.new]⟩
    (EveryStep.of_forall_mem (fun step hmem _ ↦ h step hmem) Publication.new)).2

/-- After every publication the client holds the queue without later duplicates, in order of
strictly increasing keys, and unless the table was replaced, tasks that stayed queued kept
their keys. -/
theorem publish_lossless (steps : List (HashOrder Id × List Id)) (hash : HashOrder Id)
    (queue : List Id) :
    let before := run Publication.publish Publication.new steps
    let after := before.publish (hash, queue)
    after.published.map QueueOrderEntry.taskId = queue.eraseDups ∧
      Increasing QueueOrderEntry.order after.published ∧
      ((∀ positions, before.delta (hash, queue) ≠ .full positions) →
        ∀ row ∈ before.published, row.taskId ∈ queue → row ∈ after.published) := by
  obtain ⟨ordered, hsync⟩ := run_synced steps
  obtain ⟨hsynced, hkept⟩ := diff_synced hsync hash queue
  exact ⟨hsynced.ids, hsynced.increasing, hkept⟩

end Publisher

end Engine.QueueOrder
