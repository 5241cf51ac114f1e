import FluxDown.Base.Ranked

/-!
# Reading a table page by page

Library `Base`. A table that changes is read in pages of rows in the order of their ranks. The
cursor is the last rank that was read, so rows that come or go in the part that was read do not
shift the rest. In the end each rank was read once, as it stood at some time: what was read of it is
what the table had of it then.
-/

namespace Base

variable {α κ : Type*} [LinearOrder κ] {rank : α → κ}

/-- A part of an increasing list ends at its last rank. -/
theorem Increasing.mem_take_iff {l : List α} (h : Increasing rank l) {n : Nat} {last : α}
    (hlast : (l.take n).getLast? = some last) {a : α} (ha : a ∈ l) :
    a ∈ l.take n ↔ rank a ≤ rank last := by
  obtain ⟨init, hinit⟩ := List.getLast?_eq_some_iff.mp hlast
  have hsplit : l.take n ++ l.drop n = l := List.take_append_drop n l
  rw [Increasing, ← hsplit, List.pairwise_append] at h
  obtain ⟨htake, -, hcross⟩ := h
  rw [← hsplit, List.mem_append] at ha
  constructor
  · intro hmem
    rw [hinit, List.pairwise_append] at htake
    rw [hinit, List.mem_append, List.mem_singleton] at hmem
    rcases hmem with hmem | rfl
    · exact (htake.2.2 a hmem last List.mem_cons_self).le
    · exact le_rfl
  · intro hle
    rcases ha with hmem | hmem
    · exact hmem
    · have hlt := hcross last (by simp [hinit]) a hmem
      exact absurd hlt (not_lt.mpr hle)

/-- The rows after a rank. -/
theorem Increasing.mem_dropWhile_iff {l : List α} (h : Increasing rank l) {c : κ} {a : α} :
    a ∈ l.dropWhile (fun a ↦ rank a ≤ c) ↔ a ∈ l ∧ c < rank a := by
  induction l with
  | nil => simp
  | cons b l ih =>
    rw [Increasing, List.pairwise_cons] at h
    by_cases hle : rank b ≤ c
    · rw [List.dropWhile_cons_of_pos (by simpa using hle), ih h.2, List.mem_cons]
      constructor
      · exact fun hmem ↦ ⟨.inr hmem.1, hmem.2⟩
      · rintro ⟨rfl | hmem, hlt⟩
        · exact absurd hle (not_le.mpr hlt)
        · exact ⟨hmem, hlt⟩
    · rw [List.dropWhile_cons_of_neg (by simpa using hle), iff_self_and, List.mem_cons]
      rintro (rfl | hmem)
      · exact not_le.mp hle
      · exact (not_le.mp hle).trans (h.1 a hmem)

/-- Rows of different ranks are put in increasing order. -/
theorem increasing_sortByRank {l : List α} (h : (l.map rank).Nodup) :
    Increasing rank (sortByRank rank l) := by
  have hperm : ((sortByRank rank l).map rank).Perm (l.map rank) := (perm_sortByRank l).map rank
  have hne : (sortByRank rank l).Pairwise fun a b ↦ rank a ≠ rank b :=
    List.pairwise_map.mp (hperm.nodup_iff.mpr h)
  exact (pairwise_sortByRank l).imp₂ (fun _ _ hle hne ↦ lt_of_le_of_ne hle hne) hne

/-! ## The part that was read -/

/-- The rank was read. -/
def Paged (cursor : Option κ) (done : Bool) (c : κ) : Prop :=
  done = true ∨ ∃ last ∈ cursor, c ≤ last

/-- The cursor after a page of so many rows. -/
def nextCursor (rank : α → κ) (n : Nat) (rest : List α) : Option κ :=
  if n < rest.length then (rest.take n).getLast?.map rank else none

/-- What was read: each rank that was read stands as in one of the tables seen. -/
structure Read (rank : α → κ) (Seen : List α → Prop) (rows : List α) (cursor : Option κ)
    (done : Bool) : Prop where
  increasing : Increasing rank rows
  covered : ∀ a ∈ rows, Paged cursor done (rank a)
  seen : ∀ c, Paged cursor done c → ∃ table, Seen table ∧ ∀ a, rank a = c → (a ∈ rows ↔ a ∈ table)

namespace Read

variable {Seen Seen' : List α → Prop} {rows table rest : List α} {cursor : Option κ} {done : Bool}

/-- Before the first page. -/
theorem start : Read rank Seen [] none false where
  increasing := List.Pairwise.nil
  covered a ha := by cases ha
  seen c hc := by
    rcases hc with hdone | ⟨last, hlast, -⟩
    · cases hdone
    · cases hlast

/-- An empty table needs no page. -/
theorem empty (h : Seen []) : Read rank Seen [] none true where
  increasing := List.Pairwise.nil
  covered a ha := by cases ha
  seen c _ := ⟨[], h, fun _ _ ↦ Iff.rfl⟩

/-- What was read of some tables was read of more. -/
theorem mono (h : Read rank Seen rows cursor done) (himp : ∀ table, Seen table → Seen' table) :
    Read rank Seen' rows cursor done where
  increasing := h.increasing
  covered := h.covered
  seen c hc := by
    obtain ⟨table, htable, hmem⟩ := h.seen c hc
    exact ⟨table, himp table htable, hmem⟩

private theorem nextCursor_spec {n : Nat} (hpos : 0 < n) (hrest : Increasing rank rest) :
    (nextCursor rank n rest = none ∧ rest.take n = rest) ∨
      ∃ last ∈ rest, nextCursor rank n rest = some (rank last) ∧
        ∀ a ∈ rest, a ∈ rest.take n ↔ rank a ≤ rank last := by
  unfold nextCursor
  split
  · next hlt =>
    have hne : rest.take n ≠ [] := by
      intro hnil
      rw [List.take_eq_nil_iff] at hnil
      rcases hnil with rfl | rfl
      · omega
      · simp at hlt
    have hlast := List.getLast?_eq_some_getLast hne
    refine .inr ⟨(rest.take n).getLast hne, List.mem_of_mem_take (List.getLast_mem hne), ?_, ?_⟩
    · rw [hlast, Option.map_some]
    · exact fun a ha ↦ hrest.mem_take_iff hlast ha
  · next hge => exact .inl ⟨rfl, List.take_of_length_le (not_lt.mp hge)⟩

/-- The next page: the first rows after the cursor of the table as it stands. -/
theorem page (h : Read rank Seen rows cursor false) (htable : Seen table) (hrest : Increasing rank rest)
    (hmem : ∀ a, a ∈ rest ↔ a ∈ table ∧ ∀ last ∈ cursor, last < rank a) {n : Nat} (hpos : 0 < n) :
    Read rank Seen (rows ++ rest.take n) (nextCursor rank n rest) (nextCursor rank n rest).isNone := by
  -- Ranks that were read before stay read, and the page has none of them.
  have hbefore : ∀ a ∈ rows, ∃ last ∈ cursor, rank a ≤ last := by
    intro a ha
    rcases h.covered a ha with hdone | hlast
    · cases hdone
    · exact hlast
  have hafter : ∀ a ∈ rest.take n, ∀ last ∈ cursor, last < rank a :=
    fun a ha ↦ ((hmem a).mp (List.mem_of_mem_take ha)).2
  have hcases := nextCursor_spec hpos hrest
  have hin : ∀ a ∈ rest, Paged (nextCursor rank n rest) (nextCursor rank n rest).isNone (rank a) →
      a ∈ rest.take n := by
    intro a ha hcovered
    rcases hcases with ⟨-, hall⟩ | ⟨last, -, hnext, htake⟩
    · rwa [hall]
    · rcases hcovered with hdone | ⟨last', hlast', hle⟩
      · rw [hnext] at hdone
        cases hdone
      · rw [hnext, Option.mem_some_iff] at hlast'
        exact (htake a ha).mpr (hlast' ▸ hle)
  refine ⟨?_, ?_, ?_⟩
  · apply List.pairwise_append.mpr
    refine ⟨h.increasing, hrest.sublist (List.take_sublist n rest), ?_⟩
    intro a ha b hb
    obtain ⟨last, hlast, hle⟩ := hbefore a ha
    exact lt_of_le_of_lt hle (hafter b hb last hlast)
  · intro a ha
    rcases hcases with ⟨hnext, -⟩ | ⟨last, hlast, hnext, htake⟩
    · exact .inl (by rw [hnext]; rfl)
    · refine .inr ⟨rank last, hnext, ?_⟩
      rcases List.mem_append.mp ha with ha | ha
      · obtain ⟨old, hold, hle⟩ := hbefore a ha
        exact hle.trans (((hmem last).mp hlast).2 old hold).le
      · exact (htake a (List.mem_of_mem_take ha)).mp ha
  · intro c hc
    by_cases hold : ∃ last ∈ cursor, c ≤ last
    · obtain ⟨old, hseen, hrows⟩ := h.seen c (.inr hold)
      refine ⟨old, hseen, fun a ha ↦ ?_⟩
      have hnot : a ∉ rest.take n := by
        intro hmem'
        obtain ⟨last, hlast, hle⟩ := hold
        exact absurd (hafter a hmem' last hlast) (not_lt.mpr (ha ▸ hle))
      rw [List.mem_append, ← hrows a ha]
      exact or_iff_left hnot
    · refine ⟨table, htable, fun a ha ↦ ?_⟩
      have hlast : ∀ last ∈ cursor, last < rank a := by
        intro last hlast
        by_contra hle
        exact hold ⟨last, hlast, ha ▸ not_lt.mp hle⟩
      have hnot : a ∉ rows := by
        intro hrow
        obtain ⟨last, hmem', hle⟩ := hbefore a hrow
        exact absurd (hlast last hmem') (not_lt.mpr hle)
      rw [List.mem_append]
      constructor
      · rintro (hrow | hpage)
        · exact absurd hrow hnot
        · exact ((hmem a).mp (List.mem_of_mem_take hpage)).1
      · intro htab
        exact .inr (hin a ((hmem a).mpr ⟨htab, hlast⟩) (ha ▸ hc))

/-- The cursor goes on. -/
theorem nextCursor_ne (hmem : ∀ a ∈ rest, ∀ last ∈ cursor, last < rank a) {n : Nat} (hpos : 0 < n)
    (hrest : Increasing rank rest) (hsome : (nextCursor rank n rest).isSome) :
    nextCursor rank n rest ≠ cursor := by
  rcases nextCursor_spec hpos hrest with ⟨hnext, -⟩ | ⟨last, hlast, hnext, -⟩
  · rw [hnext] at hsome
    cases hsome
  · rw [hnext]
    intro heq
    exact lt_irrefl _ (hmem last hlast (rank last) heq.symm)

end Read

end Base
