import Mathlib

/-!
# Runs of a transition function

Library `Base`. A system that takes one step for each operation, its run over a list of
operations, and the two inductions every safety argument uses: a property that each step
preserves holds at the end of a run, and a reflexive transitive relation that each step
respects relates the start of a run to its end. `EveryStep` states a condition on each
step of a run, on the operation and the state it meets.
-/

namespace Base

variable {σ α : Type*}

/-- The state reached by taking the operations one after another. -/
def run (step : σ → α → σ) (s : σ) (ops : List α) : σ := ops.foldl step s

/-- Each step of the run meets the condition in the state it starts from. -/
def EveryStep (step : σ → α → σ) (cond : σ → α → Prop) : σ → List α → Prop
  | _, [] => True
  | s, a :: ops => cond s a ∧ EveryStep step cond (step s a) ops

instance EveryStep.decidable {step : σ → α → σ} {cond : σ → α → Prop}
    [∀ s a, Decidable (cond s a)] : ∀ s ops, Decidable (EveryStep step cond s ops)
  | _, [] => inferInstanceAs (Decidable True)
  | s, a :: ops =>
    have : Decidable (EveryStep step cond (step s a) ops) := EveryStep.decidable (step s a) ops
    inferInstanceAs (Decidable (cond s a ∧ EveryStep step cond (step s a) ops))

section Run

variable (step : σ → α → σ)

/-- No operations change nothing. -/
@[simp] theorem run_nil (s : σ) : run step s [] = s := rfl

/-- The first operation is made first. -/
@[simp] theorem run_cons (s : σ) (a : α) (ops : List α) :
    run step s (a :: ops) = run step (step s a) ops := rfl

/-- A run goes on from where its first part ends. -/
theorem run_append (s : σ) (ops ops' : List α) :
    run step s (ops ++ ops') = run step (run step s ops) ops' :=
  List.foldl_append

/-- The last operation is made last. -/
theorem run_concat (s : σ) (ops : List α) (a : α) :
    run step s (ops ++ [a]) = step (run step s ops) a := by
  rw [run_append, run_cons, run_nil]

variable {step} {cond : σ → α → Prop}

/-- The steps of a run meet a condition when those of its parts do. -/
theorem everyStep_append {s : σ} {ops ops' : List α} :
    EveryStep step cond s (ops ++ ops') ↔
      EveryStep step cond s ops ∧ EveryStep step cond (run step s ops) ops' := by
  induction ops generalizing s with
  | nil => simp [EveryStep]
  | cons a ops ih => simp [EveryStep, ih, and_assoc]

/-- A weaker condition is met as well. -/
theorem EveryStep.mono {cond' : σ → α → Prop} (himp : ∀ s a, cond s a → cond' s a) :
    ∀ {ops : List α} {s : σ}, EveryStep step cond s ops → EveryStep step cond' s ops
  | [], _, h => h
  | _ :: _, _, ⟨h, hrest⟩ => ⟨himp _ _ h, hrest.mono himp⟩

/-- A condition on the operations alone is met by every run of such operations. -/
theorem EveryStep.of_forall_mem :
    ∀ {ops : List α}, (∀ a ∈ ops, ∀ s, cond s a) → ∀ s, EveryStep step cond s ops
  | [], _, _ => trivial
  | a :: _, h, s => ⟨h a List.mem_cons_self s,
      EveryStep.of_forall_mem (fun b hb ↦ h b (List.mem_cons_of_mem a hb)) (step s a)⟩

/-- A prefix of a run whose steps meet the condition is such a run. -/
theorem EveryStep.take {ops : List α} {s : σ} (h : EveryStep step cond s ops) (n : Nat) :
    EveryStep step cond s (ops.take n) := by
  rw [← List.take_append_drop n ops] at h
  exact (everyStep_append.mp h).1

/-- Each step of a run meets the condition in the state reached before it. -/
theorem EveryStep.at {ops : List α} {s : σ} (h : EveryStep step cond s ops) {n : Nat} {a : α}
    (ha : ops[n]? = some a) : cond (run step s (ops.take n)) a := by
  have hnext := h.take (n + 1)
  rw [List.take_add_one, ha] at hnext
  exact (everyStep_append.mp hnext).2.1

/-- A run whose operations meet the condition in the states reached before them. -/
theorem EveryStep.of_at {ops : List α} {s : σ}
    (h : ∀ n a, ops[n]? = some a → cond (run step s (ops.take n)) a) :
    EveryStep step cond s ops := by
  induction ops generalizing s with
  | nil => trivial
  | cons a ops ih =>
    refine ⟨h 0 a rfl, ih fun n b hb ↦ ?_⟩
    exact h (n + 1) b hb

/-- A property preserved by each step holds at the end of a run. -/
theorem run_invariant {Inv : σ → Prop}
    (hstep : ∀ s a, Inv s → cond s a → Inv (step s a)) {ops : List α} {s : σ}
    (hs : Inv s) (h : EveryStep step cond s ops) : Inv (run step s ops) := by
  induction ops generalizing s with
  | nil => exact hs
  | cons a ops ih => exact ih (hstep s a hs h.1) h.2

/-- A property preserved by each step without further conditions. -/
theorem run_preserves {Inv : σ → Prop} (hstep : ∀ s a, Inv s → Inv (step s a)) {s : σ}
    (hs : Inv s) (ops : List α) : Inv (run step s ops) := by
  induction ops generalizing s with
  | nil => exact hs
  | cons a ops ih => exact ih (hstep s a hs)

/-- A reflexive transitive relation respected by each step spans a run. -/
theorem run_related {Inv : σ → Prop} {R : σ → σ → Prop} (hrefl : ∀ s, R s s)
    (htrans : ∀ {s t u}, R s t → R t u → R s u)
    (hinv : ∀ s a, Inv s → cond s a → Inv (step s a))
    (hstep : ∀ s a, Inv s → cond s a → R s (step s a)) {ops : List α} {s : σ}
    (hs : Inv s) (h : EveryStep step cond s ops) : R s (run step s ops) := by
  induction ops generalizing s with
  | nil => exact hrefl s
  | cons a ops ih => exact htrans (hstep s a hs h.1) (ih (hinv s a hs h.1) h.2)

/-- The relation of `run_related` holds between any two moments of a run. -/
theorem run_related_take {Inv : σ → Prop} {R : σ → σ → Prop} (hrefl : ∀ s, R s s)
    (htrans : ∀ {s t u}, R s t → R t u → R s u)
    (hinv : ∀ s a, Inv s → cond s a → Inv (step s a))
    (hstep : ∀ s a, Inv s → cond s a → R s (step s a))
    {ops : List α} {s : σ} (hs : Inv s) (h : EveryStep step cond s ops) {m n : Nat}
    (hmn : m ≤ n) : R (run step s (ops.take m)) (run step s (ops.take n)) := by
  have htake : (ops.take n).take m = ops.take m := by rw [List.take_take, Nat.min_eq_left hmn]
  have hsplit : ops.take m ++ (ops.take n).drop m = ops.take n := by
    rw [← htake, List.take_append_drop]
  have hn := h.take n
  rw [← hsplit] at hn ⊢
  obtain ⟨hm, hrest⟩ := everyStep_append.mp hn
  rw [run_append]
  exact run_related hrefl htrans hinv hstep (run_invariant hinv hs hm) hrest

/-- A property that a run brings about is brought about by one of its steps. -/
theorem exists_step_of_run {Q : σ → Prop} {ops : List α} {s : σ} (hs : ¬Q s)
    (h : Q (run step s ops)) :
    ∃ before a after, ops = before ++ a :: after ∧ ¬Q (run step s before) ∧
      Q (step (run step s before) a) := by
  induction ops generalizing s with
  | nil => exact absurd h hs
  | cons a ops ih =>
    by_cases hnext : Q (step s a)
    · exact ⟨[], a, ops, rfl, hs, hnext⟩
    · obtain ⟨before, b, after, hops, hbefore, hafter⟩ := ih hnext h
      exact ⟨a :: before, b, after, by rw [hops, List.cons_append], hbefore, hafter⟩

/-- A run with more steps than the measure of its start has stopped, where each step before
stopping lowers the measure. -/
theorem run_stops {Inv Done : σ → Prop} {measure : σ → Nat}
    (hinv : ∀ s a, Inv s → cond s a → Inv (step s a))
    (hdone : ∀ s a, Done s → Done (step s a))
    (hstep : ∀ s a, Inv s → cond s a → Done (step s a) ∨ measure (step s a) < measure s)
    {ops : List α} {s : σ} (hs : Inv s) (h : EveryStep step cond s ops)
    (hlong : measure s < ops.length) : Done (run step s ops) := by
  induction ops generalizing s with
  | nil => exact absurd hlong (Nat.not_lt_zero _)
  | cons a ops ih =>
    rw [run_cons]
    rcases hstep s a hs h.1 with hnow | hless
    · exact run_preserves (fun s a ↦ hdone s a) hnow ops
    · apply ih (hinv s a hs h.1) h.2
      rw [List.length_cons] at hlong
      omega

end Run

end Base
