import Mathlib

/-!
# Streams that arrive in pieces

Library `Base`. A stream is the list of what its reads give: some items, or a failure. Reading an
exact number of items joins pieces and splits the last one, so what is read and what is left do not
depend on where the pieces end.
-/

namespace Base

variable {α : Type*}

/-- What one read of a stream gives; no items are the end of the stream. -/
inductive Arrival (α : Type*) where
  | data (items : List α)
  | failed (text : String)

/-- The stream after a piece of which these items are left. -/
def putBack (items : List α) (stream : List (Arrival α)) : List (Arrival α) :=
  if items.isEmpty then stream else .data items :: stream

/-- Read exactly `n` items: the items, or nothing when the stream ends or fails before. -/
def readExact : Nat → List (Arrival α) → Option (List α) × List (Arrival α)
  | 0, stream => (some [], stream)
  | _ + 1, [] => (none, [])
  | _ + 1, .failed _ :: stream => (none, stream)
  | n + 1, .data items :: stream =>
    if items.isEmpty then (none, stream)
    else if n + 1 ≤ items.length then
      (some (items.take (n + 1)), putBack (items.drop (n + 1)) stream)
    else
      let (rest, stream) := readExact (n + 1 - items.length) stream
      (rest.map (items ++ ·), stream)

/-- The stream brings these items in pieces and then ends. -/
inductive Chunked : List α → List (Arrival α) → Prop where
  | nil : Chunked [] []
  | cons {items rest : List α} {stream : List (Arrival α)} (h : items ≠ [])
      (hrest : Chunked rest stream) : Chunked (items ++ rest) (.data items :: stream)

namespace Chunked

variable {items rest : List α} {stream : List (Arrival α)}

private theorem putBack (items : List α) (h : Chunked rest stream) :
    Chunked (items ++ rest) (putBack items stream) := by
  unfold Base.putBack
  split
  · next hempty => simpa [List.isEmpty_iff.mp hempty] using h
  · next hsome => exact .cons (by simpa using hsome) h

/-- Items in one piece. -/
theorem single (h : items ≠ []) : Chunked items [.data items] := by
  simpa using cons h nil

/-- The first items are read, wherever the pieces end, and the others are left. -/
theorem readExact_append {front : List α} (h : Chunked (front ++ rest) stream) :
    ∃ stream', Chunked rest stream' ∧ readExact front.length stream = (some front, stream') := by
  generalize hwhole : front ++ rest = whole at h
  induction h generalizing front with
  | nil =>
    obtain ⟨rfl, rfl⟩ := List.append_eq_nil_iff.mp hwhole
    exact ⟨[], .nil, rfl⟩
  | @cons items whole stream hne hrest ih =>
    cases front with
    | nil =>
      obtain rfl : rest = items ++ whole := hwhole
      exact ⟨_, .cons hne hrest, rfl⟩
    | cons a front =>
      have hsome : items.isEmpty = false := by simpa using hne
      rw [List.length_cons, readExact, hsome, if_neg Bool.false_ne_true]
      -- Either the piece has all the items, or it has the first of them.
      rcases List.append_eq_append_iff.mp hwhole with ⟨more, hitems, hmore⟩ | ⟨more, hfront, hmore⟩
      · rw [if_pos (by simp [hitems])]
        refine ⟨_, hmore ▸ hrest.putBack more, ?_⟩
        rw [hitems, ← List.length_cons, List.take_left, List.drop_left]
      · have hlength : front.length + 1 = items.length + more.length := by
          rw [← List.length_cons, hfront, List.length_append]
        cases more with
        | nil =>
          rw [List.append_nil] at hfront
          rw [if_pos (by simp [hlength]), ← List.length_cons, hfront, List.take_length,
            List.drop_length]
          obtain rfl : whole = rest := hmore
          exact ⟨stream, hrest, rfl⟩
        | cons b more =>
          rw [List.length_cons] at hlength
          rw [if_neg (by omega)]
          obtain ⟨stream', hchunked, hread⟩ := ih hmore.symm
          have hcount : front.length + 1 - items.length = (b :: more).length := by
            rw [List.length_cons]
            omega
          refine ⟨stream', hchunked, ?_⟩
          rw [hcount, hread, hfront]
          rfl

end Chunked

/-- What is read has the length that was asked for. -/
theorem length_of_readExact {n : Nat} {stream stream' : List (Arrival α)} {items : List α}
    (h : readExact n stream = (some items, stream')) : items.length = n := by
  induction stream generalizing n items stream' with
  | nil =>
    cases n with
    | zero => simp_all [readExact]
    | succ n => simp [readExact] at h
  | cons arrival stream ih =>
    cases n with
    | zero => simp_all [readExact]
    | succ n =>
      cases arrival with
      | failed text => simp [readExact] at h
      | data piece =>
        rw [readExact] at h
        split at h
        · simp at h
        · split at h
          · next hfits =>
            obtain ⟨rfl, -⟩ : piece.take (n + 1) = items ∧ _ := by simpa using h
            rw [List.length_take, Nat.min_eq_left hfits]
          · next hshort =>
            cases hread : readExact (n + 1 - piece.length) stream with
            | mk more stream'' =>
              cases more with
              | none => simp [hread] at h
              | some more =>
                have hlength := ih hread
                obtain ⟨rfl, -⟩ : piece ++ more = items ∧ _ := by simpa [hread] using h
                rw [List.length_append, hlength]
                omega

end Base
