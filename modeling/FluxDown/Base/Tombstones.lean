import Mathlib

/-!
# Positions with gaps

Library `Base`. Entries of a list get numbers that are never used again; a removal keeps the others
and remembers the number. The position of a number is then the number less those that were removed
below it, which a search by halves finds. The second part is about the removal itself, of several
positions at once.
-/

namespace Base

/-- The first position of a sorted list whose number is not below the value, by halves. -/
def bisect (sorted : List Nat) (value low high : Nat) : Nat :=
  if low < high then
    let mid := (low + high) / 2
    if sorted.getD mid 0 < value then bisect sorted value (mid + 1) high
    else bisect sorted value low mid
  else low
termination_by high - low

/-- The numbers in use, in order. -/
def alive (next : Nat) (removed : List Nat) : List Nat :=
  (List.range next).filter fun number ↦ number ∉ removed

section Bisect

variable {sorted : List Nat} {value : Nat}

/-- The numbers below a value come first. -/
theorem lt_iff_lt_countP (h : sorted.Pairwise (· < ·)) {i number : Nat}
    (hi : sorted[i]? = some number) :
    number < value ↔ i < sorted.countP fun number ↦ number < value := by
  induction sorted generalizing i with
  | nil => cases hi
  | cons first sorted ih =>
    obtain ⟨hfirst, hsorted⟩ := List.pairwise_cons.mp h
    by_cases hlt : first < value
    · rw [List.countP_cons_of_pos (by simpa using hlt)]
      cases i with
      | zero =>
        obtain rfl := Option.some.inj hi
        simp [hlt]
      | succ i =>
        rw [ih hsorted hi]
        omega
    · have hnone : ∀ other ∈ first :: sorted, ¬ other < value := by
        intro other hother
        rcases List.mem_cons.mp hother with rfl | hother
        · exact hlt
        · have := hfirst other hother
          omega
      have hzero : ((first :: sorted).countP fun number ↦ number < value) = 0 := by
        rw [List.countP_eq_zero]
        intro other hother
        simpa using hnone other hother
      have hnumber := hnone number (List.mem_of_getElem? hi)
      omega

/-- The search finds how many numbers are smaller. -/
theorem bisect_eq_countP (h : sorted.Pairwise (· < ·)) {low high : Nat}
    (hlow : low ≤ sorted.countP fun number ↦ number < value)
    (hhigh : (sorted.countP fun number ↦ number < value) ≤ high) (hlength : high ≤ sorted.length) :
    bisect sorted value low high = sorted.countP fun number ↦ number < value := by
  fun_induction bisect sorted value low high with
  | case1 low high hlt mid hbelow ih =>
    have hmid : mid < high := by omega
    have hget : sorted[mid]? = some (sorted.getD mid 0) := by
      rw [List.getD_eq_getElem?_getD, List.getElem?_eq_getElem (by omega), Option.getD_some]
    exact ih ((lt_iff_lt_countP h hget).mp hbelow) hhigh hlength
  | case2 low high hlt mid hbelow ih =>
    have hmid : mid < high := by omega
    have hget : sorted[mid]? = some (sorted.getD mid 0) := by
      rw [List.getD_eq_getElem?_getD, List.getElem?_eq_getElem (by omega), Option.getD_some]
    have hcount := mt (lt_iff_lt_countP h hget).mpr hbelow
    exact ih hlow (by omega) (by omega)
  | case3 low high hlt => omega

end Bisect

section Alive

variable {next slot : Nat} {removed : List Nat}

/-- The next slot is alive unless it was removed. -/
theorem alive_succ (next : Nat) (removed : List Nat) :
    alive (next + 1) removed = alive next removed ++ if next ∈ removed then [] else [next] := by
  rw [alive, List.range_succ, List.filter_append]
  by_cases hmem : next ∈ removed
  · simp [alive, hmem]
  · simp [alive, hmem]

/-- A slot is alive when it was given out and not removed. -/
@[simp] theorem mem_alive : slot ∈ alive next removed ↔ slot < next ∧ slot ∉ removed := by
  simp [alive]

/-- Slots are alive once. -/
theorem nodup_alive (next : Nat) (removed : List Nat) : (alive next removed).Nodup :=
  List.nodup_range.filter _

private theorem countP_lt_succ (hnodup : removed.Nodup) (value : Nat) :
    (removed.countP fun number ↦ number < value + 1) =
      (removed.countP fun number ↦ number < value) + if value ∈ removed then 1 else 0 := by
  induction removed with
  | nil => rfl
  | cons first removed ih =>
    obtain ⟨hfirst, hremoved⟩ := List.nodup_cons.mp hnodup
    rw [List.countP_cons, List.countP_cons, ih hremoved]
    by_cases hsame : first = value
    · subst hsame
      simp [hfirst]
    · have hbelow : first < value + 1 ↔ first < value := by omega
      have hmem : value ∈ first :: removed ↔ value ∈ removed := by
        rw [List.mem_cons, or_iff_right (Ne.symm hsame)]
      simp only [hbelow, hmem]
      omega

/-- Numbers are in use or removed. -/
theorem length_alive (hnodup : removed.Nodup) (next : Nat) :
    (alive next removed).length + (removed.countP fun number ↦ number < next) = next := by
  induction next with
  | zero => simp [alive]
  | succ next ih =>
    rw [alive_succ, List.length_append, countP_lt_succ hnodup]
    by_cases hmem : next ∈ removed
    · simp [hmem]
      omega
    · simp [hmem]
      omega

private theorem alive_isStart {limit : Nat} (h : limit ≤ next) :
    alive limit removed <+: alive next removed := by
  induction next with
  | zero =>
    obtain rfl := Nat.le_zero.mp h
    exact List.prefix_rfl
  | succ next ih =>
    rcases Nat.lt_or_eq_of_le h with hlt | rfl
    · rw [alive_succ]
      exact (ih (by omega)).trans (List.prefix_append _ _)
    · exact List.prefix_rfl

/-- The position of a number is the number less those removed below it. -/
theorem alive_position (hnodup : removed.Nodup) (hslot : slot < next) (halive : slot ∉ removed) :
    (removed.countP fun number ↦ number < slot) ≤ slot ∧
      (alive next removed)[slot - removed.countP fun number ↦ number < slot]? = some slot := by
  have hlength := length_alive hnodup slot
  refine ⟨by omega, ?_⟩
  obtain ⟨rest, hrest⟩ := @alive_isStart next removed (slot + 1) hslot
  rw [← hrest, alive_succ, if_neg halive, List.append_assoc, List.getElem?_append_right (by omega),
    show slot - (removed.countP fun number ↦ number < slot) - (alive slot removed).length = 0 by omega]
  rfl

/-- The slot at a place is alive, and its number counts the removed ones before it. -/
theorem position_of_alive (hnodup : removed.Nodup) {position : Nat}
    (h : (alive next removed)[position]? = some slot) :
    slot < next ∧ slot ∉ removed ∧
      position + (removed.countP fun number ↦ number < slot) = slot := by
  obtain ⟨hslot, halive⟩ := mem_alive.mp (List.mem_of_getElem? h)
  obtain ⟨hle, hposition⟩ := alive_position hnodup hslot halive
  have hin := (List.getElem?_eq_some_iff.mp h).1
  have hsame := (List.getElem?_inj hin (nodup_alive next removed)).mp (h.trans hposition.symm)
  exact ⟨hslot, halive, by omega⟩

/-- More are removed. -/
theorem alive_of_removed {removed' gone : List Nat}
    (h : ∀ number, number ∈ removed' ↔ number ∈ removed ∨ number ∈ gone) :
    alive next removed' = (alive next removed).filter fun number ↦ number ∉ gone := by
  rw [alive, alive, List.filter_filter]
  apply List.filter_congr
  intro number _
  simp only [h, decide_not, Bool.decide_or]
  simp [Bool.and_comm]

end Alive

/-- Erase the positions one after another, from the last. -/
def splice {α : Type*} (positions : List Nat) (l : List α) : List α :=
  positions.foldr (fun position kept ↦ kept.eraseIdx position) l

/-- Copy what is between the positions. -/
def segments {α : Type*} (l : List α) : Nat → List Nat → List α
  | start, [] => l.drop start
  | start, position :: positions =>
    (l.take position).drop start ++ segments l (position + 1) positions

section Removal

variable {α : Type*} [DecidableEq α] {l : List α} {positions : List Nat}

/-- The entries at the positions. -/
def entriesAt (l : List α) (positions : List Nat) : List α := positions.filterMap fun i ↦ l[i]?

omit [DecidableEq α] in
/-- The entries at places of the list. -/
theorem mem_entriesAt {a : α} :
    a ∈ entriesAt l positions ↔ ∃ position ∈ positions, l[position]? = some a := by
  simp [entriesAt]

omit [DecidableEq α] in
/-- An entry before the positions is not at one of them. -/
theorem not_mem_entriesAt (hnodup : l.Nodup) {i : Nat} {a : α} (ha : l[i]? = some a)
    (hi : i ∉ positions) : a ∉ entriesAt l positions := by
  intro hmem
  obtain ⟨position, hposition, hsame⟩ := mem_entriesAt.mp hmem
  have hin := (List.getElem?_eq_some_iff.mp ha).1
  have heq := (List.getElem?_inj hin hnodup).mp (ha.trans hsame.symm)
  exact hi (heq ▸ hposition)

omit [DecidableEq α] in
/-- The entry of a place is among the entries at places when its place is. -/
theorem mem_entriesAt_iff (hnodup : l.Nodup) {i : Nat} {a : α} (ha : l[i]? = some a) :
    a ∈ entriesAt l positions ↔ i ∈ positions := by
  constructor
  · intro hmem
    by_contra hi
    exact not_mem_entriesAt hnodup ha hi hmem
  · exact fun hi ↦ mem_entriesAt.mpr ⟨i, hi, ha⟩

omit [DecidableEq α] in
private theorem entriesAt_cons {position : Nat} (h : position < l.length) :
    entriesAt l (position :: positions) = l[position] :: entriesAt l positions := by
  rw [entriesAt, List.filterMap_cons_some (List.getElem?_eq_getElem h), entriesAt]

/-- The parts of a list between places have the entries that are at none of them. -/
theorem segments_eq_filter (hnodup : l.Nodup) (hsorted : positions.Pairwise (· < ·))
    (hin : ∀ position ∈ positions, position < l.length) {start : Nat}
    (hstart : ∀ position ∈ positions, start ≤ position) :
    segments l start positions = (l.drop start).filter fun a ↦ a ∉ entriesAt l positions := by
  induction positions generalizing start with
  | nil => simp [segments, entriesAt]
  | cons position positions ih =>
    obtain ⟨hfirst, hsorted⟩ := List.pairwise_cons.mp hsorted
    have hlt := hin position List.mem_cons_self
    have hle := hstart position List.mem_cons_self
    have hrest := @ih hsorted (fun i hi ↦ hin i (List.mem_cons_of_mem _ hi)) (position + 1)
      fun i hi ↦ hfirst i hi
    have hsplit : l.drop start =
        (l.take position).drop start ++ l[position] :: l.drop (position + 1) := by
      rw [← List.drop_eq_getElem_cons hlt, ← List.drop_append_of_le_length
        (by rw [List.length_take]; omega), List.take_append_drop]
    have hbefore : ((l.take position).drop start).filter
        (fun a ↦ a ∉ entriesAt l (position :: positions)) = (l.take position).drop start := by
      rw [List.filter_eq_self]
      intro a ha
      obtain ⟨i, hi⟩ := List.mem_iff_getElem?.mp (List.mem_of_mem_drop ha)
      rw [List.getElem?_take] at hi
      split at hi
      · next hbelow =>
        apply decide_eq_true
        apply not_mem_entriesAt hnodup hi
        intro hmem
        rcases List.mem_cons.mp hmem with rfl | hmem
        · exact Nat.lt_irrefl _ hbelow
        · exact absurd (hfirst i hmem) (by omega)
      · cases hi
    have hafter : (l.drop (position + 1)).filter
        (fun a ↦ a ∉ entriesAt l (position :: positions)) =
          (l.drop (position + 1)).filter fun a ↦ a ∉ entriesAt l positions := by
      apply List.filter_congr
      intro a ha
      obtain ⟨i, hi⟩ := List.mem_iff_getElem?.mp ha
      rw [List.getElem?_drop] at hi
      have hne : a ≠ l[position] := by
        rintro rfl
        have hsame := (List.getElem?_inj hlt hnodup).mp
          ((List.getElem?_eq_getElem hlt).trans hi.symm)
        omega
      simp [entriesAt_cons hlt, hne]
    rw [segments, hrest, hsplit, List.filter_append, hbefore, List.filter_cons_of_neg, hafter]
    simp [entriesAt_cons hlt]

/-- Cutting places out of a list leaves the entries that are at none of them. -/
theorem splice_eq_filter (hnodup : l.Nodup) (hsorted : positions.Pairwise (· < ·))
    (hin : ∀ position ∈ positions, position < l.length) :
    splice positions l = l.filter fun a ↦ a ∉ entriesAt l positions := by
  induction positions with
  | nil => simp [splice, entriesAt]
  | cons position positions ih =>
    obtain ⟨hfirst, hsorted⟩ := List.pairwise_cons.mp hsorted
    have hlt := hin position List.mem_cons_self
    have hrest := ih hsorted fun i hi ↦ hin i (List.mem_cons_of_mem _ hi)
    -- what is before the erased positions stays where it is
    have hkeep : ∀ positions : List Nat, (∀ i ∈ positions, position < i) →
        (splice positions l)[position]? = l[position]? := by
      intro positions hpositions
      induction positions with
      | nil => rfl
      | cons i positions ih =>
        rw [splice, List.foldr_cons,
          List.getElem?_eraseIdx_of_lt (hpositions i List.mem_cons_self)]
        exact ih fun j hj ↦ hpositions j (List.mem_cons_of_mem _ hj)
    have hget := hkeep positions hfirst
    rw [List.getElem?_eq_getElem hlt] at hget
    have hnodup' : (splice positions l).Nodup := by
      rw [hrest]
      exact hnodup.filter _
    obtain ⟨hin', hvalue⟩ := List.getElem?_eq_some_iff.mp hget
    have herase : (splice positions l).eraseIdx position =
        (splice positions l).filter fun a ↦ a != l[position] := by
      rw [← hnodup'.erase_eq_filter, ← hvalue, hnodup'.erase_getElem position hin']
    rw [splice, List.foldr_cons]
    change (splice positions l).eraseIdx position = _
    rw [herase, hrest, List.filter_filter]
    apply List.filter_congr
    intro a _
    simp [entriesAt_cons hlt, bne, beq_eq_decide]

omit [DecidableEq α] in
/-- The entries at increasing positions are in the order of the list. -/
theorem pairwise_entriesAt {R : α → α → Prop} (h : l.Pairwise R)
    (hsorted : positions.Pairwise (· < ·)) : (entriesAt l positions).Pairwise R := by
  rw [entriesAt, List.pairwise_filterMap]
  apply hsorted.imp
  intro i j hij a ha b hb
  obtain ⟨hi, rfl⟩ := List.getElem?_eq_some_iff.mp ha
  obtain ⟨hj, rfl⟩ := List.getElem?_eq_some_iff.mp hb
  exact List.pairwise_iff_getElem.mp h i j hi hj hij

omit [DecidableEq α] in
/-- Mapping entries at places is mapping the list. -/
theorem map_entriesAt {β : Type*} (f : α → β) :
    (entriesAt l positions).map f = entriesAt (l.map f) positions := by
  rw [entriesAt, entriesAt, List.map_filterMap]
  apply List.filterMap_congr
  intro i _
  rw [List.getElem?_map]

end Removal

/-- Two increasing lists without a common number are merged to an increasing one. -/
theorem pairwise_merge_lt {left right : List Nat} (hleft : left.Pairwise (· < ·))
    (hright : right.Pairwise (· < ·)) (hdisjoint : ∀ number ∈ left, number ∉ right) :
    (left.merge right fun a b ↦ a < b).Pairwise (· < ·) := by
  induction left generalizing right with
  | nil => simpa using hright
  | cons a left ihleft =>
    induction right with
    | nil => simpa using hleft
    | cons b right ihright =>
      obtain ⟨ha, hleft'⟩ := List.pairwise_cons.mp hleft
      obtain ⟨hb, hright'⟩ := List.pairwise_cons.mp hright
      rw [List.cons_merge_cons]
      by_cases hab : a < b
      · rw [if_pos (decide_eq_true hab)]
        apply List.Pairwise.cons
        · intro number hnumber
          rcases List.mem_merge.mp hnumber with hnumber | hnumber
          · exact ha number hnumber
          · rcases List.mem_cons.mp hnumber with rfl | hnumber
            · exact hab
            · exact Nat.lt_trans hab (hb number hnumber)
        · exact ihleft hleft' hright fun number hnumber ↦
            hdisjoint number (List.mem_cons_of_mem a hnumber)
      · have hne : a ≠ b := by
          rintro rfl
          exact hdisjoint a List.mem_cons_self List.mem_cons_self
        have hba : b < a := by omega
        rw [if_neg (by simpa using hab)]
        apply List.Pairwise.cons
        · intro number hnumber
          rcases List.mem_merge.mp hnumber with hnumber | hnumber
          · rcases List.mem_cons.mp hnumber with rfl | hnumber
            · exact hba
            · exact Nat.lt_trans hba (ha number hnumber)
          · exact hb number hnumber
        · exact ihright hright' fun number hnumber hmem ↦
            hdisjoint number hnumber (List.mem_cons_of_mem b hmem)

end Base
