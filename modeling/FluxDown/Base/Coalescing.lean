import FluxDown.Base.Run

/-!
# Logs with merged entries

Library `Base`. A log replaces a history of operations: each place holds the operation of
the history, one that also stands for earlier places, or nothing where a later place stands
for it. The log represents the history if from every moment of the history the rest of the
log leads to where the history leads, so that a reader may join the log anywhere. An entry
may be merged into a new one past the entries between if a relation between states that lack
the entry and states that have it is kept by those entries and closed by the new one.
-/

namespace Base

variable {σ α : Type*} {step : σ → α → σ} {Valid : σ → Prop}

/-- The state reached by the operations that are left in a log. -/
def runLog (step : σ → α → σ) (s : σ) (log : List (Option α)) : σ :=
  run step s (log.filterMap id)

/-- An empty log changes nothing. -/
@[simp] theorem runLog_nil (s : σ) : runLog step s [] = s := rfl

/-- A gap of a log changes nothing. -/
@[simp] theorem runLog_none (s : σ) (log : List (Option α)) :
    runLog step s (none :: log) = runLog step s log := rfl

/-- The entries of a log run in order. -/
@[simp] theorem runLog_some (s : σ) (a : α) (log : List (Option α)) :
    runLog step s (some a :: log) = runLog step (step s a) log := rfl

/-- A log runs as its parts one after the other. -/
theorem runLog_append (s : σ) (log log' : List (Option α)) :
    runLog step s (log ++ log') = runLog step (runLog step s log) log' := by
  rw [runLog, List.filterMap_append, run_append]
  rfl

/-- The log may stand for the history from every moment on, and passes valid states only. -/
structure Represents (step : σ → α → σ) (Valid : σ → Prop) (s : σ) (history : List α)
    (log : List (Option α)) : Prop where
  /-- Each operation has its place. -/
  length_eq : log.length = history.length
  /-- From every moment the rest of the log leads to the end. -/
  reaches : ∀ c ≤ history.length,
    runLog step (run step s (history.take c)) (log.drop c) = run step s history
  /-- From every moment the log passes valid states. -/
  valid : ∀ c j, c ≤ j → j ≤ history.length →
    Valid (runLog step (run step s (history.take c)) ((log.take j).drop c))

namespace Represents

variable {s : σ} {history : List α} {log : List (Option α)}

/-- Nothing is represented by nothing. -/
theorem nil (h : Valid s) : Represents step Valid s [] [] where
  length_eq := rfl
  reaches c _ := by simp
  valid c j _ _ := by simpa using h

/-- A longer history and a log that leads to its end from every moment: beyond the old end
only the end itself is new. -/
theorem of_reaches {a : α} (hlength : log.length = (history ++ [a]).length)
    (hreaches : ∀ c ≤ (history ++ [a]).length,
      runLog step (run step s ((history ++ [a]).take c)) (log.drop c) =
        run step s (history ++ [a]))
    (hend : Valid (run step s (history ++ [a])))
    (hvalid : ∀ c j, c ≤ j → j ≤ history.length →
      Valid (runLog step (run step s (history.take c)) ((log.take j).drop c))) :
    Represents step Valid s (history ++ [a]) log where
  length_eq := hlength
  reaches := hreaches
  valid c j hcj hj := by
    by_cases hold : j ≤ history.length
    · rw [List.take_append_of_le_length (Nat.le_trans hcj hold)]
      exact hvalid c j hcj hold
    · have hall : log.take j = log := by
        apply List.take_of_length_le
        rw [hlength]
        simp only [List.length_append, List.length_singleton] at hj ⊢
        omega
      rw [hall, hreaches c (Nat.le_trans hcj hj)]
      exact hend

/-- A new operation takes a place of its own. -/
theorem push (h : Represents step Valid s history log) {a : α}
    (hvalid : Valid (run step s (history ++ [a]))) :
    Represents step Valid s (history ++ [a]) (log ++ [some a]) := by
  apply of_reaches
  · simp [h.length_eq]
  · intro c hc
    rw [List.length_append, List.length_singleton] at hc
    by_cases hlast : c ≤ history.length
    · rw [List.take_append_of_le_length hlast, List.drop_append_of_le_length (h.length_eq ▸ hlast),
        runLog_append, h.reaches c hlast, run_concat]
      rfl
    · rw [List.take_of_length_le (by simp; omega), List.drop_of_length_le (by simp [h.length_eq]; omega)]
      rfl
  · exact hvalid
  · intro c j hcj hj
    rw [List.take_append_of_le_length (h.length_eq ▸ hj)]
    exact h.valid c j hcj hj

/-- How states that lack an entry relate to states that have it. -/
structure Merges (step : σ → α → σ) (Valid : σ → Prop) (earlier later merged : α)
    (between : List (Option α)) (Lag : σ → σ → Prop) : Prop where
  /-- The entry itself makes the difference. -/
  start : ∀ x, Valid x → Valid (step x earlier) → Lag x (step x earlier)
  /-- The entries between keep it. -/
  pass : ∀ b, some b ∈ between → ∀ x y, Lag x y → Valid (step y b) → Lag (step x b) (step y b)
  /-- States that lack the entry are valid. -/
  valid : ∀ x y, Lag x y → Valid x
  /-- The merged entry leads both where the later one leads the states that have the entry. -/
  close : ∀ x y, Lag x y → Valid y → Valid (step y later) →
    step x merged = step y later ∧ step y merged = step y later

private theorem lag_runLog {Lag : σ → σ → Prop} {between : List (Option α)}
    (hpass : ∀ b, some b ∈ between → ∀ x y, Lag x y → Valid (step y b) → Lag (step x b) (step y b))
    {x y : σ} (hlag : Lag x y)
    (hvalid : ∀ j ≤ between.length, Valid (runLog step y (between.take j))) :
    Lag (runLog step x between) (runLog step y between) := by
  induction between generalizing x y with
  | nil => exact hlag
  | cons entry between ih =>
    have hrest : ∀ b, some b ∈ between → ∀ x y, Lag x y → Valid (step y b) →
        Lag (step x b) (step y b) := fun b hb ↦ hpass b (List.mem_cons_of_mem _ hb)
    cases entry with
    | none =>
      apply ih hrest hlag
      intro j hj
      exact hvalid (j + 1) (by simpa using hj)
    | some b =>
      apply ih hrest
      · apply hpass b List.mem_cons_self x y hlag
        simpa using hvalid 1 (by simp)
      · intro j hj
        exact hvalid (j + 1) (by simpa using hj)

/-- The new operation is merged with an entry of the log. -/
theorem merge {before between : List (Option α)} {earlier later merged : α}
    {Lag : σ → σ → Prop}
    (h : Represents step Valid s history (before ++ some earlier :: between))
    (hmerges : Merges step Valid earlier later merged between Lag)
    (hend : Valid (run step s (history ++ [later]))) :
    Represents step Valid s (history ++ [later])
      (before ++ none :: between ++ [some merged]) := by
  have hlength : history.length = before.length + 1 + between.length := by
    rw [← h.length_eq]
    simp only [List.length_append, List.length_cons]
    omega
  -- The states before the entry and after it, for a reader that joins before it.
  have hbefore : ∀ c ≤ before.length,
      Valid (runLog step (run step s (history.take c)) (before.drop c)) ∧
      (∀ j ≤ between.length, Valid (runLog step
        (step (runLog step (run step s (history.take c)) (before.drop c)) earlier)
        (between.take j))) ∧
      runLog step (step (runLog step (run step s (history.take c)) (before.drop c)) earlier)
        between = run step s history := by
    intro c hc
    refine ⟨?_, ?_, ?_⟩
    · have hvalid := h.valid c before.length hc (by omega)
      rwa [List.take_left] at hvalid
    · intro j hj
      have hvalid := h.valid c (before.length + (j + 1)) (by omega) (by omega)
      rwa [List.take_length_add_append, List.take_succ_cons, List.drop_append_of_le_length hc,
        runLog_append, runLog_some] at hvalid
    · have hreach := h.reaches c (by omega)
      rwa [List.drop_append_of_le_length hc, runLog_append, runLog_some] at hreach
  -- They are related, up to any place among the entries between.
  have hlag : ∀ c ≤ before.length, ∀ j ≤ between.length,
      Lag (runLog step (runLog step (run step s (history.take c)) (before.drop c))
          (between.take j))
        (runLog step
          (step (runLog step (run step s (history.take c)) (before.drop c)) earlier)
          (between.take j)) := by
    intro c hc j hj
    obtain ⟨hvalid, hpassed, -⟩ := hbefore c hc
    apply lag_runLog
    · intro b hb
      exact hmerges.pass b (List.mem_of_mem_take hb)
    · exact hmerges.start _ hvalid (by simpa using hpassed 0 (Nat.zero_le _))
    · intro i hi
      rw [List.length_take] at hi
      rw [List.take_take, Nat.min_eq_left (by omega)]
      exact hpassed i (by omega)
  have hfull : ∀ c ≤ before.length,
      Lag (runLog step (run step s (history.take c)) (before.drop c ++ between))
        (run step s history) := by
    intro c hc
    have hall := hlag c hc between.length (Nat.le_refl _)
    rwa [List.take_length, (hbefore c hc).2.2, ← runLog_append] at hall
  have hcurrent : Valid (run step s history) := by
    have hvalid := h.valid history.length history.length (Nat.le_refl _) (Nat.le_refl _)
    rwa [List.take_length, ← h.length_eq, List.take_length, List.drop_length, runLog_nil] at hvalid
  have hlater : Valid (step (run step s history) later) := by rwa [run_concat] at hend
  have hlong : ∀ c, (before ++ none :: between ++ [some merged]).drop c =
      (before ++ none :: between).drop c ++ [some merged].drop (c - history.length) := by
    intro c
    rw [List.drop_append, hlength]
    congr 2
    simp only [List.length_append, List.length_cons]
    omega
  apply of_reaches
  · simp only [List.length_append, List.length_cons, List.length_nil, hlength]
    omega
  · intro c hc
    rw [List.length_append, List.length_singleton] at hc
    rw [run_concat, hlong]
    by_cases hlast : c = history.length + 1
    · rw [List.take_of_length_le (by simp [hlast]), hlast, List.drop_of_length_le,
        run_concat]
      · simp
      · simp only [List.length_append, List.length_cons]
        omega
    · rw [List.take_append_of_le_length (by omega), Nat.sub_eq_zero_of_le (by omega), List.drop_zero,
        runLog_append]
      by_cases hc' : c ≤ before.length
      · have hskip : runLog step (run step s (history.take c)) ((before ++ none :: between).drop c) =
            runLog step (run step s (history.take c)) (before.drop c ++ between) := by
          rw [List.drop_append_of_le_length hc', runLog_append, runLog_none, ← runLog_append]
        rw [hskip]
        exact (hmerges.close _ _ (hfull c hc') hcurrent hlater).1
      · have hreach := h.reaches c (by omega)
        obtain ⟨k, hk⟩ : ∃ k, c = before.length + (k + 1) := ⟨c - before.length - 1, by omega⟩
        rw [hk, List.drop_length_add_append, List.drop_succ_cons] at hreach ⊢
        rw [hreach]
        exact (hmerges.close _ _ (hfull 0 (Nat.zero_le _)) hcurrent hlater).2
  · exact hend
  · intro c j hcj hj
    have htake : (before ++ none :: between ++ [some merged]).take j =
        (before ++ none :: between).take j := by
      apply List.take_append_of_le_length
      simp only [List.length_append, List.length_cons]
      omega
    rw [htake]
    by_cases hj' : j ≤ before.length
    · have hvalid := h.valid c j hcj hj
      rw [List.take_append_of_le_length hj'] at hvalid ⊢
      exact hvalid
    · obtain ⟨k, hk⟩ : ∃ k, j = before.length + (k + 1) := ⟨j - before.length - 1, by omega⟩
      have hvalid := h.valid c j hcj hj
      rw [hk, List.take_length_add_append, List.take_succ_cons] at hvalid ⊢
      by_cases hc : c ≤ before.length
      · rw [List.drop_append_of_le_length hc, runLog_append, runLog_none]
        exact hmerges.valid _ _ (hlag c hc k (by omega))
      · obtain ⟨i, hi⟩ : ∃ i, c = before.length + (i + 1) := ⟨c - before.length - 1, by omega⟩
        rw [hi, List.drop_length_add_append, List.drop_succ_cons] at hvalid ⊢
        exact hvalid

end Represents

end Base
