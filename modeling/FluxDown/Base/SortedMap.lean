import Mathlib

/-!
# Key-ordered maps

Library `Base`. A finite map kept as its entries in strictly increasing key order,
the observable behaviour of an ordered tree map: lookup, insertion, removal, in-place
update and iteration in key order. The order invariant is a field, so every map is a
well-formed one. Rearrangement lemmas give the entries of each operation up to
permutation; sums and counts over the values follow from them.
-/

namespace Base

universe u v

/-- A finite map whose entries are listed in strictly increasing key order. -/
structure SortedMap (κ : Type u) (α : Type v) [LinearOrder κ] where
  /-- The entries in key order. -/
  entries : List (κ × α)
  /-- Keys strictly increase along the entries. -/
  sorted : entries.Pairwise (fun a b ↦ a.1 < b.1)

namespace SortedMap

variable {κ : Type u} {α β : Type v} [LinearOrder κ]

/-- The map without entries. -/
def empty : SortedMap κ α := ⟨[], List.Pairwise.nil⟩

instance : Inhabited (SortedMap κ α) := ⟨empty⟩

instance [DecidableEq α] : DecidableEq (SortedMap κ α) := fun a b ↦
  decidable_of_iff (a.entries = b.entries) ⟨fun h ↦ by cases a; cases b; cases h; rfl, fun h ↦ by rw [h]⟩

/-- The keys in increasing order. -/
def keys (m : SortedMap κ α) : List κ := m.entries.map Prod.fst

/-- The values in key order. -/
def values (m : SortedMap κ α) : List α := m.entries.map Prod.snd

/-- The value stored at `k`, if any. -/
def get? (m : SortedMap κ α) (k : κ) : Option α :=
  (m.entries.find? (fun e ↦ e.1 = k)).map Prod.snd

/-- Store `v` at `k`, replacing a value stored there. -/
def insert (m : SortedMap κ α) (k : κ) (v : α) : SortedMap κ α where
  entries := m.entries.filter (fun e ↦ e.1 < k) ++ (k, v) :: m.entries.filter (fun e ↦ k < e.1)
  sorted := by
    refine List.pairwise_append.mpr ⟨m.sorted.filter _, List.pairwise_cons.mpr
      ⟨fun e he ↦ by simpa using (List.mem_filter.mp he).2, m.sorted.filter _⟩, ?_⟩
    intro a ha b hb
    have ha' : a.1 < k := by simpa using (List.mem_filter.mp ha).2
    rcases List.mem_cons.mp hb with rfl | hb
    · exact ha'
    · have hb' : k < b.1 := by simpa using (List.mem_filter.mp hb).2
      exact lt_trans ha' hb'

/-- Remove the entry at `k`. -/
def erase (m : SortedMap κ α) (k : κ) : SortedMap κ α where
  entries := m.entries.filter (fun e ↦ e.1 ≠ k)
  sorted := m.sorted.filter _

/-- Rewrite every value, keeping the keys. -/
def mapValues (m : SortedMap κ α) (f : κ → α → β) : SortedMap κ β where
  entries := m.entries.map (fun e ↦ (e.1, f e.1 e.2))
  sorted := List.pairwise_map.mpr m.sorted

/-- Rewrite the value stored at `k`, if any. -/
def modify (m : SortedMap κ α) (k : κ) (f : α → α) : SortedMap κ α :=
  m.mapValues (fun k' v ↦ if k' = k then f v else v)

/-- Keep the entries satisfying `p`. -/
def filter (m : SortedMap κ α) (p : κ → α → Bool) : SortedMap κ α where
  entries := m.entries.filter (fun e ↦ p e.1 e.2)
  sorted := m.sorted.filter _

/-- Insert a list of entries from left to right. -/
def insertAll (m : SortedMap κ α) (es : List (κ × α)) : SortedMap κ α :=
  es.foldl (fun acc e ↦ acc.insert e.1 e.2) m

/-- Remove the entries at all of `ks`. -/
def eraseAll (m : SortedMap κ α) (ks : List κ) : SortedMap κ α :=
  ks.foldl erase m

/-! ## Lookup and membership -/

private theorem nodup_entries (m : SortedMap κ α) : m.entries.Nodup :=
  m.sorted.imp fun h heq ↦ absurd (heq ▸ h) (lt_irrefl _)

private theorem nodup_keys (m : SortedMap κ α) : m.keys.Nodup :=
  List.pairwise_map.mpr (m.sorted.imp fun h ↦ ne_of_lt h)

/-- A key is bound at most once. -/
theorem eq_of_mem (m : SortedMap κ α) {k : κ} {v w : α}
    (hv : (k, v) ∈ m.entries) (hw : (k, w) ∈ m.entries) : v = w := by
  have h := List.inj_on_of_nodup_map m.nodup_keys hv hw rfl
  exact congrArg Prod.snd h

/-- Lookup finds exactly the listed entries. -/
theorem get?_eq_some_iff (m : SortedMap κ α) {k : κ} {v : α} :
    m.get? k = some v ↔ (k, v) ∈ m.entries := by
  unfold get?
  constructor
  · intro h
    obtain ⟨e, he, rfl⟩ := Option.map_eq_some_iff.mp h
    have hk : e.1 = k := by simpa using List.find?_some he
    exact hk ▸ List.mem_of_find?_eq_some he
  · intro h
    cases hf : m.entries.find? (fun e ↦ e.1 = k) with
    | none => simpa using List.find?_eq_none.mp hf _ h
    | some e =>
      have hk : e.1 = k := by simpa using List.find?_some hf
      have he : (k, e.2) ∈ m.entries := hk ▸ List.mem_of_find?_eq_some hf
      simp [m.eq_of_mem he h]

/-- Maps with the same lookups are equal. -/
theorem ext_get? {m n : SortedMap κ α} (h : ∀ k, m.get? k = n.get? k) : m = n := by
  have hmem : ∀ e, e ∈ m.entries ↔ e ∈ n.entries := fun e ↦ by
    rw [← Prod.mk.eta (p := e), ← m.get?_eq_some_iff, ← n.get?_eq_some_iff, h]
  have hperm := (List.perm_ext_iff_of_nodup m.nodup_entries n.nodup_entries).mpr hmem
  have heq : m.entries = n.entries :=
    hperm.eq_of_pairwise (fun a b _ _ hab hba ↦ absurd (lt_trans hab hba) (lt_irrefl _))
      m.sorted n.sorted
  cases m; cases n; cases heq; rfl

/-- The values are those of the keys. -/
theorem mem_values_iff (m : SortedMap κ α) {v : α} :
    v ∈ m.values ↔ ∃ k, m.get? k = some v := by
  simp [values, m.get?_eq_some_iff]

/-- The keys are those that have a value. -/
theorem mem_keys_iff (m : SortedMap κ α) {k : κ} :
    k ∈ m.keys ↔ (m.get? k).isSome := by
  rw [Option.isSome_iff_exists]
  simp [keys, m.get?_eq_some_iff]

/-- The empty map has no entries. -/
@[simp] theorem entries_empty : (empty : SortedMap κ α).entries = [] := rfl

/-- The empty map has no value. -/
@[simp] theorem get?_empty (k : κ) : (empty : SortedMap κ α).get? k = none := rfl

private theorem mem_insert (m : SortedMap κ α) {k a : κ} {v b : α} :
    (a, b) ∈ (m.insert k v).entries ↔
      (a = k ∧ b = v) ∨ (a ≠ k ∧ (a, b) ∈ m.entries) := by
  simp only [insert, List.mem_append, List.mem_filter, List.mem_cons, Prod.mk.injEq,
    decide_eq_true_eq]
  constructor
  · rintro (⟨h, hlt⟩ | h | ⟨h, hlt⟩)
    · exact Or.inr ⟨ne_of_lt hlt, h⟩
    · exact Or.inl h
    · exact Or.inr ⟨ne_of_gt hlt, h⟩
  · rintro (h | ⟨hne, h⟩)
    · exact Or.inr (Or.inl h)
    · rcases lt_or_gt_of_ne hne with hlt | hlt
      · exact Or.inl ⟨h, hlt⟩
      · exact Or.inr (Or.inr ⟨h, hlt⟩)

private theorem mem_erase (m : SortedMap κ α) {k a : κ} {b : α} :
    (a, b) ∈ (m.erase k).entries ↔ a ≠ k ∧ (a, b) ∈ m.entries := by
  simp [erase, List.mem_filter, and_comm]

/-- The value of an inserted key is the inserted one. -/
@[simp] theorem get?_insert (m : SortedMap κ α) (k a : κ) (v : α) :
    (m.insert k v).get? a = if a = k then some v else m.get? a := by
  ext b
  rw [get?_eq_some_iff, mem_insert]
  split
  · next h => simp [h, eq_comm]
  · next h => simp [h, m.get?_eq_some_iff]

/-- An erased key has no value. -/
@[simp] theorem get?_erase (m : SortedMap κ α) (k a : κ) :
    (m.erase k).get? a = if a = k then none else m.get? a := by
  ext b
  rw [get?_eq_some_iff, mem_erase]
  split
  · next h => simp [h]
  · next h => simp [h, m.get?_eq_some_iff]

/-- Values are mapped key by key. -/
theorem get?_mapValues (m : SortedMap κ α) (f : κ → α → β) (a : κ) :
    (m.mapValues f).get? a = (m.get? a).map (f a) := by
  ext b
  rw [get?_eq_some_iff, Option.map_eq_some_iff]
  simp only [mapValues, List.mem_map, Prod.mk.injEq, m.get?_eq_some_iff]
  constructor
  · rintro ⟨⟨k, v⟩, hmem, rfl, rfl⟩
    exact ⟨v, hmem, rfl⟩
  · rintro ⟨v, hmem, rfl⟩
    exact ⟨(a, v), hmem, rfl, rfl⟩

/-- Only the value of the key is changed. -/
@[simp] theorem get?_modify (m : SortedMap κ α) (k a : κ) (f : α → α) :
    (m.modify k f).get? a = if a = k then (m.get? a).map f else m.get? a := by
  rw [modify, get?_mapValues]
  split <;> simp

/-- A value stays when it passes. -/
theorem get?_filter (m : SortedMap κ α) (p : κ → α → Bool) (a : κ) :
    (m.filter p).get? a = (m.get? a).filter (p a) := by
  ext b
  rw [get?_eq_some_iff, Option.filter_eq_some_iff, m.get?_eq_some_iff]
  simp [filter, List.mem_filter]

/-- Inserting a list of entries leaves the last binding of each key. -/
theorem get?_insertAll (m : SortedMap κ α) (es : List (κ × α)) (a : κ) :
    (m.insertAll es).get? a =
      ((es.reverse.find? (fun e ↦ e.1 = a)).map Prod.snd).or (m.get? a) := by
  induction es generalizing m with
  | nil => rfl
  | cons e es ih =>
    have hstep : m.insertAll (e :: es) = (m.insert e.1 e.2).insertAll es := rfl
    rw [hstep, ih, List.reverse_cons, List.find?_append, get?_insert]
    cases hf : es.reverse.find? (fun e ↦ e.1 = a) with
    | some x => simp
    | none =>
      by_cases h : a = e.1
      · simp [h]
      · simp [h, Ne.symm h]

/-- Entries with distinct keys override what was stored. -/
theorem get?_insertAll_eq_some_iff (m : SortedMap κ α) {es : List (κ × α)}
    (hes : (es.map Prod.fst).Nodup) {a : κ} {v : α} :
    (m.insertAll es).get? a = some v ↔
      (a, v) ∈ es ∨ a ∉ es.map Prod.fst ∧ m.get? a = some v := by
  rw [get?_insertAll]
  cases hf : es.reverse.find? (fun e ↦ e.1 = a) with
  | none =>
    have habsent : a ∉ es.map Prod.fst := fun h ↦ by
      obtain ⟨e, he, rfl⟩ := List.mem_map.mp h
      simpa using List.find?_eq_none.mp hf e (List.mem_reverse.mpr he)
    have hmem : (a, v) ∉ es := fun h ↦ habsent (List.mem_map_of_mem h)
    simp [habsent, hmem]
  | some e =>
    have ha : e.1 = a := by simpa using List.find?_some hf
    have he : (a, e.2) ∈ es := ha ▸ List.mem_reverse.mp (List.mem_of_find?_eq_some hf)
    have hpresent : a ∈ es.map Prod.fst := List.mem_map_of_mem he
    simp only [Option.map_some, Option.some_or, Option.some.injEq, hpresent, not_true_eq_false,
      false_and, or_false]
    constructor
    · rintro rfl
      exact he
    · intro h
      exact congrArg Prod.snd (List.inj_on_of_nodup_map hes he h rfl)

/-- Erased keys have no value. -/
theorem get?_eraseAll (m : SortedMap κ α) (ks : List κ) (a : κ) :
    (m.eraseAll ks).get? a = if a ∈ ks then none else m.get? a := by
  induction ks generalizing m with
  | nil => rfl
  | cons k ks ih =>
    have hstep : m.eraseAll (k :: ks) = (m.erase k).eraseAll ks := rfl
    rw [hstep, ih, get?_erase]
    by_cases h : a ∈ ks <;> by_cases hk : a = k <;> simp [h, hk]

private theorem entries_eraseAll (m : SortedMap κ α) (ks : List κ) :
    (m.eraseAll ks).entries = m.entries.filter fun e ↦ e.1 ∉ ks := by
  induction ks generalizing m with
  | nil => exact (List.filter_eq_self.mpr fun _ _ ↦ by simp).symm
  | cons k ks ih =>
    have hstep : m.eraseAll (k :: ks) = (m.erase k).eraseAll ks := rfl
    rw [hstep, ih, erase, List.filter_filter]
    apply List.filter_congr
    intro e _
    simp [Bool.and_comm]

/-- Removing the first keys leaves the entries after them. -/
theorem entries_eraseAll_take (m : SortedMap κ α) (n : Nat) :
    (m.eraseAll (m.keys.take n)).entries = m.entries.drop n := by
  have hnodup := m.nodup_keys
  rw [keys, ← List.take_append_drop n m.entries, List.map_append] at hnodup
  have hdisjoint := (List.nodup_append'.mp hnodup).2.2
  rw [entries_eraseAll, keys, ← List.map_take]
  generalize hkeys : (m.entries.take n).map Prod.fst = ks at hdisjoint ⊢
  rw [← List.take_append_drop n m.entries, List.filter_append, List.take_append_drop,
    List.filter_eq_nil_iff.mpr, List.filter_eq_self.mpr, List.nil_append]
  · intro e he
    exact decide_eq_true fun htaken ↦ hdisjoint htaken (List.mem_map_of_mem he)
  · intro e he
    have hkey : e.1 ∈ ks := hkeys ▸ List.mem_map_of_mem he
    simpa using hkey

/-! ## Entries up to rearrangement -/

/-- Insertion replaces whatever was stored at the key. -/
theorem entries_insert_perm (m : SortedMap κ α) (k : κ) (v : α) :
    (m.insert k v).entries.Perm ((k, v) :: (m.erase k).entries) := by
  have hk : (k, v) ∉ (m.erase k).entries := fun h ↦ (m.mem_erase.mp h).1 rfl
  refine (List.perm_ext_iff_of_nodup (nodup_entries _)
    (List.nodup_cons.mpr ⟨hk, nodup_entries _⟩)).mpr fun ⟨a, b⟩ ↦ ?_
  rw [mem_insert, List.mem_cons, mem_erase, Prod.mk.injEq]

/-- A stored entry can be moved to the front. -/
theorem entries_perm_of_get? (m : SortedMap κ α) {k : κ} {v : α}
    (h : m.get? k = some v) :
    m.entries.Perm ((k, v) :: (m.erase k).entries) := by
  have hmem := m.get?_eq_some_iff.mp h
  have hk : (k, v) ∉ (m.erase k).entries := fun h ↦ (m.mem_erase.mp h).1 rfl
  refine (List.perm_ext_iff_of_nodup (nodup_entries _)
    (List.nodup_cons.mpr ⟨hk, nodup_entries _⟩)).mpr fun ⟨a, b⟩ ↦ ?_
  rw [List.mem_cons, mem_erase, Prod.mk.injEq]
  by_cases ha : a = k
  · subst ha
    exact ⟨fun hb ↦ Or.inl ⟨rfl, m.eq_of_mem hb hmem⟩,
      fun hb ↦ hb.elim (fun e ↦ e.2 ▸ hmem) (fun e ↦ absurd rfl e.1)⟩
  · simp [ha]

/-- Entries with distinct keys can be moved to the front together. -/
theorem entries_perm_eraseAll (m : SortedMap κ α) {es : List (κ × α)} (hes : es.Nodup)
    (h : ∀ e ∈ es, e ∈ m.entries) :
    m.entries.Perm (es ++ (m.eraseAll (es.map Prod.fst)).entries) := by
  have hrest : ∀ a b, (a, b) ∈ (m.eraseAll (es.map Prod.fst)).entries ↔
      a ∉ es.map Prod.fst ∧ (a, b) ∈ m.entries := fun a b ↦ by
    rw [← get?_eq_some_iff, get?_eraseAll, ← get?_eq_some_iff]
    split <;> simp_all
  refine (List.perm_ext_iff_of_nodup m.nodup_entries (List.nodup_append'.mpr
    ⟨hes, nodup_entries _, ?_⟩)).mpr fun ⟨a, b⟩ ↦ ?_
  · intro ⟨a, b⟩ he hmem
    exact ((hrest a b).mp hmem).1 (List.mem_map_of_mem he)
  · rw [List.mem_append, hrest]
    constructor
    · intro hab
      by_cases ha : a ∈ es.map Prod.fst
      · obtain ⟨⟨_, b'⟩, he, rfl⟩ := List.mem_map.mp ha
        exact Or.inl (m.eq_of_mem (h _ he) hab ▸ he)
      · exact Or.inr ⟨ha, hab⟩
    · rintro (he | ⟨_, hab⟩)
      · exact h _ he
      · exact hab

/-- A map built from a list with distinct keys has exactly the listed entries. -/
theorem entries_insertAll_perm {es : List (κ × α)} (hes : (es.map Prod.fst).Nodup) :
    ((empty : SortedMap κ α).insertAll es).entries.Perm es := by
  refine (List.perm_ext_iff_of_nodup (nodup_entries _) hes.of_map).mpr fun ⟨a, b⟩ ↦ ?_
  rw [← get?_eq_some_iff, get?_insertAll_eq_some_iff _ hes]
  simp

/-- Removing an absent key changes nothing. -/
theorem erase_of_get?_none (m : SortedMap κ α) {k : κ} (h : m.get? k = none) :
    m.erase k = m :=
  ext_get? fun a ↦ by
    rw [get?_erase]
    split
    · next ha => rw [ha, h]
    · rfl

/-- There are as many keys as entries. -/
theorem length_keys (m : SortedMap κ α) : m.keys.length = m.entries.length := List.length_map ..

/-- Inserting adds a key that was not there. -/
theorem length_keys_insert (m : SortedMap κ α) (k : κ) (v : α) :
    (m.insert k v).keys.length = if k ∈ m.keys then m.keys.length else m.keys.length + 1 := by
  rw [length_keys, length_keys, (m.entries_insert_perm k v).length_eq, List.length_cons]
  split
  · next h =>
    obtain ⟨w, hw⟩ := Option.isSome_iff_exists.mp (m.mem_keys_iff.mp h)
    rw [(m.entries_perm_of_get? hw).length_eq, List.length_cons]
  · next h =>
    have hnone : m.get? k = none := by simpa [m.mem_keys_iff] using h
    rw [m.erase_of_get?_none hnone]

/-- The first key after an insertion. -/
theorem take_one_keys_insert (m : SortedMap κ α) {first : κ} {rest : List κ}
    (hkeys : m.keys = first :: rest) (k : κ) (v : α) :
    (m.insert k v).keys.take 1 = [min k first] := by
  obtain ⟨entries, sorted⟩ := m
  cases entries with
  | nil => cases hkeys
  | cons e es =>
    obtain rfl : e.1 = first := (List.cons.inj hkeys).1
    by_cases hlt : e.1 < k
    · simp [keys, insert, hlt, min_eq_right hlt.le]
    · have hnil : (e :: es).filter (fun e' ↦ e'.1 < k) = [] := by
        refine List.filter_eq_nil_iff.mpr fun e' he' hk ↦ hlt ?_
        rcases List.mem_cons.mp he' with rfl | he'
        · exact of_decide_eq_true hk
        · exact lt_trans ((List.pairwise_cons.mp sorted).1 e' he') (of_decide_eq_true hk)
      simp [keys, insert, hnil, min_eq_left (not_lt.mp hlt)]

/-- Changing the value of a key is inserting the changed value. -/
theorem modify_of_get? (m : SortedMap κ α) {k : κ} {v : α} (f : α → α)
    (h : m.get? k = some v) : m.modify k f = m.insert k (f v) :=
  ext_get? fun a ↦ by
    rw [get?_modify, get?_insert]
    split
    · next ha => rw [ha, h]; rfl
    · rfl

/-- A value stands before those of the other keys. -/
theorem values_perm_of_get? (m : SortedMap κ α) {k : κ} {v : α}
    (h : m.get? k = some v) : m.values.Perm (v :: (m.erase k).values) :=
  (m.entries_perm_of_get? h).map Prod.snd

/-- The inserted value stands before those of the other keys. -/
theorem values_insert_perm (m : SortedMap κ α) (k : κ) (v : α) :
    (m.insert k v).values.Perm (v :: (m.erase k).values) :=
  (m.entries_insert_perm k v).map Prod.snd

/-- A fresh key adds one value. -/
theorem values_insert_fresh_perm (m : SortedMap κ α) {k : κ} (v : α)
    (h : m.get? k = none) : (m.insert k v).values.Perm (v :: m.values) := by
  have hp := m.values_insert_perm k v
  rwa [m.erase_of_get?_none h] at hp

/-- Inserting what a map holds gives the map. -/
theorem insertAll_entries_map (m : SortedMap κ α) (f : κ → α → β) :
    (empty : SortedMap κ β).insertAll (m.entries.map fun e ↦ (e.1, f e.1 e.2)) =
      m.mapValues f := by
  have hkeys : (m.entries.map fun e ↦ (e.1, f e.1 e.2)).map Prod.fst = m.keys := by
    rw [List.map_map]
    rfl
  refine ext_get? fun a ↦ ?_
  ext b
  rw [get?_insertAll_eq_some_iff _ (hkeys ▸ m.nodup_keys), get?_mapValues, Option.map_eq_some_iff]
  simp only [get?_empty, reduceCtorEq, and_false, or_false, List.mem_map, Prod.mk.injEq,
    m.get?_eq_some_iff]
  constructor
  · rintro ⟨⟨k, v⟩, hmem, rfl, rfl⟩
    exact ⟨v, hmem, rfl⟩
  · rintro ⟨v, hmem, rfl⟩
    exact ⟨(a, v), hmem, rfl, rfl⟩

/-- The values of a mapped map. -/
theorem values_mapValues (m : SortedMap κ α) (f : α → β) :
    (m.mapValues (fun _ v ↦ f v)).values = m.values.map f := by
  simp [values, mapValues]

/-- Maps that agree at each key after a projection have the same projected values. -/
theorem values_map_congr {γ : Type v} {m : SortedMap κ α} {n : SortedMap κ β} {f : α → γ}
    {g : β → γ} (h : ∀ k, (m.get? k).map f = (n.get? k).map g) :
    m.values.map f = n.values.map g := by
  have hmaps : m.mapValues (fun _ v ↦ f v) = n.mapValues fun _ v ↦ g v := by
    apply ext_get?
    intro k
    rw [get?_mapValues, get?_mapValues]
    exact h k
  rw [← values_mapValues, ← values_mapValues, hmaps]

end SortedMap

end Base
