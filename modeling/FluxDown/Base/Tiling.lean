import Mathlib

/-!
# Interval tilings

Library `Base`. Lists of closed integer intervals that tile `[a, b)`: every interval is
non-empty and every point of `[a, b)` lies in exactly one of them, no other point in any.
The order of the list is irrelevant, so tilings are stable under permutation; splitting,
joining and appending intervals preserve them, and a tiling listed by left ends is a chain
of adjacent intervals.
-/

namespace Base

/-- The closed interval of integers from `lo` to `hi`. -/
structure Span where
  /-- First point. -/
  lo : Int
  /-- Last point. -/
  hi : Int
deriving DecidableEq, Repr

namespace Span

/-- Membership of a point. -/
def Contains (s : Span) (x : Int) : Prop := s.lo ≤ x ∧ x ≤ s.hi

instance (s : Span) (x : Int) : Decidable (s.Contains x) :=
  inferInstanceAs (Decidable (s.lo ≤ x ∧ x ≤ s.hi))

/-- The interval has a point. -/
def Nonempty (s : Span) : Prop := s.lo ≤ s.hi

instance (s : Span) : Decidable s.Nonempty := inferInstanceAs (Decidable (s.lo ≤ s.hi))

/-- Number of points. -/
def length (s : Span) : Int := max (s.hi - s.lo + 1) 0

end Span

/-- How many intervals of the list contain `x`. -/
def coverCount (l : List Span) (x : Int) : Nat := l.countP (fun s ↦ decide (s.Contains x))

/-- The intervals are non-empty and cover each point of `[a, b)` once and no other. -/
structure Tiles (l : List Span) (a b : Int) : Prop where
  /-- No interval is empty. -/
  nonempty : ∀ s ∈ l, s.Nonempty
  /-- Exactly one interval holds each point of the range. -/
  cover : ∀ x, coverCount l x = if a ≤ x ∧ x < b then 1 else 0

/-- The intervals follow one another without a gap, from `a` to `b`. -/
def Chain : Int → List Span → Int → Prop
  | a, [], b => a = b
  | a, s :: l, b => s.lo = a ∧ s.Nonempty ∧ Chain (s.hi + 1) l b

/-- No range covers a place. -/
@[simp] theorem coverCount_nil (x : Int) : coverCount [] x = 0 := rfl

private theorem coverCount_cons (s : Span) (l : List Span) (x : Int) :
    coverCount (s :: l) x = coverCount l x + if s.lo ≤ x ∧ x ≤ s.hi then 1 else 0 := by
  have hs : (decide (s.Contains x) = true) = (s.lo ≤ x ∧ x ≤ s.hi) := decide_eq_true_eq
  simp only [coverCount, List.countP_cons, hs]

private theorem coverCount_perm {l l' : List Span} (h : l.Perm l') (x : Int) :
    coverCount l x = coverCount l' x :=
  h.countP_eq _

private theorem coverCount_eq_zero {l : List Span} {x : Int} :
    coverCount l x = 0 ↔ ∀ s ∈ l, ¬ s.Contains x := by
  simp [coverCount, List.countP_eq_zero]

namespace Tiles

variable {l l' : List Span} {a b : Int}

/-- The order in which the intervals are listed does not matter. -/
theorem perm (h : Tiles l a b) (hp : l.Perm l') : Tiles l' a b where
  nonempty s hs := h.nonempty s (hp.mem_iff.mpr hs)
  cover x := by rw [← coverCount_perm hp, h.cover]

/-- Every point of the range lies in some interval. -/
theorem exists_contains (h : Tiles l a b) {x : Int} (ha : a ≤ x) (hb : x < b) :
    ∃ s ∈ l, s.Contains x := by
  have hc : coverCount l x = 1 := by rw [h.cover, if_pos ⟨ha, hb⟩]
  by_contra hne
  push Not at hne
  rw [coverCount_eq_zero.mpr hne] at hc
  exact absurd hc (by decide)

/-- A point held by an interval is a point of the range. -/
theorem range_of_contains (h : Tiles l a b) {s : Span} (hs : s ∈ l) {x : Int}
    (hx : s.Contains x) : a ≤ x ∧ x < b := by
  by_contra hne
  have hc : coverCount l x = 0 := by rw [h.cover, if_neg hne]
  exact coverCount_eq_zero.mp hc s hs hx

/-- An interval lies in the range. -/
theorem bounds (h : Tiles l a b) {s : Span} (hs : s ∈ l) : a ≤ s.lo ∧ s.hi < b := by
  have hne : s.lo ≤ s.hi := h.nonempty s hs
  exact ⟨(h.range_of_contains hs ⟨le_refl _, hne⟩).1, (h.range_of_contains hs ⟨hne, le_refl _⟩).2⟩

/-- No interval at all tiles the empty range. -/
theorem nil (a : Int) : Tiles [] a a where
  nonempty s hs := absurd hs List.not_mem_nil
  cover x := by rw [coverCount_nil, if_neg (by omega)]

/-- Cut the first interval at `m`. -/
theorem split {lo m hi : Int} (h : Tiles (⟨lo, hi⟩ :: l) a b) (hlo : lo < m) (hhi : m ≤ hi) :
    Tiles (⟨lo, m - 1⟩ :: ⟨m, hi⟩ :: l) a b where
  nonempty s hs := by
    rcases List.mem_cons.mp hs with rfl | hs
    · exact Int.le_sub_one_of_lt hlo
    · rcases List.mem_cons.mp hs with rfl | hs
      · exact hhi
      · exact h.nonempty s (List.mem_cons_of_mem _ hs)
  cover x := by
    have hx := h.cover x
    simp only [coverCount_cons] at hx ⊢
    rw [← hx]
    split <;> split <;> split <;> omega

/-- Join two adjacent intervals. -/
theorem join {lo m hi : Int} (h : Tiles (⟨lo, m⟩ :: ⟨m + 1, hi⟩ :: l) a b) :
    Tiles (⟨lo, hi⟩ :: l) a b where
  nonempty s hs := by
    have h₁ : lo ≤ m := h.nonempty ⟨lo, m⟩ List.mem_cons_self
    have h₂ : m + 1 ≤ hi := h.nonempty ⟨m + 1, hi⟩ (List.mem_cons_of_mem _ List.mem_cons_self)
    rcases List.mem_cons.mp hs with rfl | hs
    · show lo ≤ hi
      omega
    · exact h.nonempty s (List.mem_cons_of_mem _ (List.mem_cons_of_mem _ hs))
  cover x := by
    have h₁ : lo ≤ m := h.nonempty ⟨lo, m⟩ List.mem_cons_self
    have h₂ : m + 1 ≤ hi := h.nonempty ⟨m + 1, hi⟩ (List.mem_cons_of_mem _ List.mem_cons_self)
    have hx := h.cover x
    simp only [coverCount_cons] at hx ⊢
    rw [← hx]
    split <;> split <;> split <;> omega

/-- Join an interval with the whole chain that follows it. -/
theorem join_chain : ∀ {ts : List Span} {lo m hi : Int},
    Tiles (⟨lo, m⟩ :: (ts ++ l)) a b → Chain (m + 1) ts (hi + 1) → Tiles (⟨lo, hi⟩ :: l) a b
  | [], lo, m, hi, h, hc => by
    have hc : m + 1 = hi + 1 := hc
    rwa [show m = hi by omega] at h
  | ⟨slo, shi⟩ :: ts, lo, m, hi, h, ⟨hlo, _, hc⟩ => by
    have hlo : slo = m + 1 := hlo
    subst hlo
    exact join_chain (join h) hc

/-- Append an interval behind the range. -/
theorem extend {c : Int} (h : Tiles l a b) (hab : a ≤ b) (hbc : b < c) :
    Tiles (⟨b, c - 1⟩ :: l) a c where
  nonempty s hs := by
    rcases List.mem_cons.mp hs with rfl | hs
    · exact Int.le_sub_one_of_lt hbc
    · exact h.nonempty s hs
  cover x := by
    simp only [coverCount_cons, h.cover x]
    split <;> split <;> split <;> omega

/-- Put an interval before the range. -/
theorem cons {s : Span} (hs : s.Nonempty) (h : Tiles l (s.hi + 1) b) (hb : s.hi < b) :
    Tiles (s :: l) s.lo b where
  nonempty t ht := by
    rcases List.mem_cons.mp ht with rfl | ht
    · exact hs
    · exact h.nonempty t ht
  cover x := by
    have hne : s.lo ≤ s.hi := hs
    rw [coverCount_cons, h.cover x]
    split <;> split <;> split <;> omega

end Tiles

namespace Chain

/-- A chain does not run backwards. -/
theorem le : ∀ {l : List Span} {a b : Int}, Chain a l b → a ≤ b
  | [], _, _, h => le_of_eq h
  | s :: l, a, b, ⟨hlo, hne, hrest⟩ => by
    have hne : s.lo ≤ s.hi := hne
    have := hrest.le
    omega

/-- Chains that meet can be joined. -/
theorem append : ∀ {l l' : List Span} {a b c : Int}, Chain a l b → Chain b l' c →
    Chain a (l ++ l') c
  | [], _, _, _, _, rfl, h' => h'
  | _ :: _, _, _, _, _, ⟨hlo, hne, h⟩, h' => ⟨hlo, hne, h.append h'⟩

/-- The intervals of a chain start no earlier than the chain. -/
theorem le_lo : ∀ {l : List Span} {a b : Int}, Chain a l b → ∀ s ∈ l, a ≤ s.lo
  | [], _, _, _, s, hs => absurd hs List.not_mem_nil
  | t :: l, a, b, ⟨hlo, hne, h⟩, s, hs => by
    have hne : t.lo ≤ t.hi := hne
    rcases List.mem_cons.mp hs with rfl | hs
    · exact hlo.ge
    · have := h.le_lo s hs
      omega

/-- No interval occurs twice in a chain. -/
theorem nodup : ∀ {l : List Span} {a b : Int}, Chain a l b → l.Nodup
  | [], _, _, _ => List.nodup_nil
  | s :: l, a, b, ⟨_, hne, h⟩ => by
    refine List.nodup_cons.mpr ⟨fun hs ↦ ?_, h.nodup⟩
    have hne : s.lo ≤ s.hi := hne
    have := h.le_lo s hs
    omega

/-- The intervals of a chain tile its range. -/
theorem tiles : ∀ {l : List Span} {a b : Int}, Chain a l b → Tiles l a b
  | [], _, _, rfl => Tiles.nil _
  | s :: l, _, b, ⟨rfl, hne, hrest⟩ =>
    Tiles.cons hne hrest.tiles (by have := hrest.le; omega)

/-- The lengths of a chain add up to the length of its range. -/
theorem sum_length : ∀ {l : List Span} {a b : Int}, Chain a l b →
    (l.map Span.length).sum = b - a
  | [], a, b, h => by
    have h : a = b := h
    simp [h]
  | s :: l, a, b, ⟨hlo, hne, hrest⟩ => by
    have hne : s.lo ≤ s.hi := hne
    rw [List.map_cons, List.sum_cons, hrest.sum_length, Span.length]
    omega

end Chain

namespace Tiles

/-- A tiling listed by left ends is a chain. -/
theorem chain_of_sorted : ∀ {l : List Span} {a b : Int}, Tiles l a b → a ≤ b →
    l.Pairwise (fun s t ↦ s.lo ≤ t.lo) → Chain a l b
  | [], a, b, h, hab, _ => by
    by_contra hne
    obtain ⟨s, hs, _⟩ := h.exists_contains (le_refl a) (lt_of_le_of_ne hab hne)
    exact absurd hs List.not_mem_nil
  | s :: l, a, b, h, hab, hsorted => by
    obtain ⟨hle, hsorted⟩ := List.pairwise_cons.mp hsorted
    have hne : s.lo ≤ s.hi := h.nonempty s List.mem_cons_self
    have hb := h.bounds List.mem_cons_self
    -- The interval holding `a` starts no later than any other, hence at `a`.
    have hlo : s.lo = a := by
      obtain ⟨t, ht, htlo, hthi⟩ := h.exists_contains (le_refl a) (by omega)
      have : s.lo ≤ t.lo := (List.mem_cons.mp ht).elim (fun e ↦ by rw [e]) (hle t)
      omega
    refine ⟨hlo, hne, ?_⟩
    have htail : Tiles l (s.hi + 1) b :=
      { nonempty := fun t ht ↦ h.nonempty t (List.mem_cons_of_mem _ ht)
        cover := fun x ↦ by
          have hx := h.cover x
          rw [coverCount_cons] at hx
          split at hx <;> split at hx <;> split <;> omega }
    exact htail.chain_of_sorted (by omega) hsorted

/-- The lengths of a tiling add up to the length of its range. -/
theorem sum_length {l : List Span} {a b : Int} (h : Tiles l a b) (hab : a ≤ b) :
    (l.map Span.length).sum = b - a := by
  have : Std.Total (fun s t : Span ↦ s.lo ≤ t.lo) := ⟨fun s t ↦ le_total s.lo t.lo⟩
  have : IsTrans Span (fun s t ↦ s.lo ≤ t.lo) := ⟨fun _ _ _ ↦ le_trans⟩
  have hp := l.perm_insertionSort (fun s t ↦ s.lo ≤ t.lo)
  have hsorted := l.pairwise_insertionSort (fun s t ↦ s.lo ≤ t.lo)
  rw [← (hp.map Span.length).sum_eq]
  exact ((h.perm hp.symm).chain_of_sorted hab hsorted).sum_length

end Tiles

end Base
