import FluxDown.Base.Tiling

/-!
# Covered ranges

Library `Base`. Which points a list of intervals covers, with overlaps allowed; and the list cut
off at a limit.
-/

namespace Base

/-- Every point from `lo` up to `hi` lies in one of the intervals. -/
def Covers (ranges : List Span) (lo hi : Int) : Prop :=
  ∀ x, lo ≤ x → x < hi → ∃ r ∈ ranges, r.Contains x

/-- The parts of the intervals below the limit. -/
def clip (limit : Int) (ranges : List Span) : List Span :=
  ranges.map fun r ↦ ⟨r.lo, min r.hi (limit - 1)⟩

namespace Covers

variable {ranges ranges' : List Span} {lo hi lo' hi' : Int}

/-- An empty range is covered. -/
theorem of_le (ranges : List Span) (h : hi ≤ lo) : Covers ranges lo hi :=
  fun x hlo hhi ↦ absurd hhi (by omega)

/-- More ranges cover as much. -/
theorem mono (h : Covers ranges lo hi) (hsub : ranges ⊆ ranges') : Covers ranges' lo hi := by
  intro x hlo hhi
  obtain ⟨r, hr, hx⟩ := h x hlo hhi
  exact ⟨r, hsub hr, hx⟩

/-- A part of a covered range is covered. -/
theorem shrink (h : Covers ranges lo hi) (hlo : lo ≤ lo') (hhi : hi' ≤ hi) :
    Covers ranges lo' hi' :=
  fun x hx hx' ↦ h x (by omega) (by omega)

/-- What lies below the limit stays covered. -/
theorem clip {limit : Int} (h : Covers ranges lo hi) (hlimit : hi ≤ limit) :
    Covers (Base.clip limit ranges) lo hi := by
  intro x hlo hhi
  obtain ⟨r, hr, hx⟩ := h x hlo hhi
  refine ⟨_, List.mem_map_of_mem hr, hx.1, ?_⟩
  have hupper : x ≤ r.hi := hx.2
  show x ≤ min r.hi (limit - 1)
  omega

end Covers

/-- A range is tiled in one way only, as far as its end goes. -/
theorem Tiles.end_unique {l : List Span} {a b c : Int} (hb : Tiles l a b) (hc : Tiles l a c)
    (hab : a < b) (hac : a < c) : b = c := by
  rcases lt_trichotomy b c with h | h | h
  · have hcount := hc.cover b
    rw [hb.cover b, if_neg (by omega), if_pos (by omega)] at hcount
    cases hcount
  · exact h
  · have hcount := hb.cover c
    rw [hc.cover c, if_neg (by omega), if_pos (by omega)] at hcount
    cases hcount

end Base
