import FluxDown.Web.TaskDraft

/-!
# Histories of the projection

Library `Web`. Arrays come from events and from drafts, drafts continue any array that was handed
out, and several drafts share one map. Every array of a history can be read by its index.
-/

namespace Web

open Base

/-! ## Versions -/

section Version

variable {heap : Heap} {tasks : Nat}

/-- An array gets a version. -/
def Heap.withVersion (heap : Heap) (tasks version : Nat) : Heap :=
  heap.onArray tasks fun array ↦ { array with version := some version }

/-- A version changes no row. -/
theorem rows_withVersion (heap : Heap) (tasks version other : Nat) :
    (heap.withVersion tasks version).rows other = heap.rows other := by
  simp only [Heap.rows, Heap.withVersion, Heap.onArray]
  by_cases hsame : tasks = other
  · subst hsame
    rw [List.getElem?_modify_eq]
    cases heap.arrays[tasks]? with
    | none => rfl
    | some array => rfl
  · rw [List.getElem?_modify_ne _ _ hsame]

/-- A version is that of its array. -/
theorem versionOf_withVersion (heap : Heap) (tasks version : Nat) {other : Nat} :
    (heap.withVersion tasks version).versionOf other =
      if other = tasks then heap.arrays[tasks]?.map fun _ ↦ version else heap.versionOf other := by
  simp only [Heap.versionOf, Heap.withVersion, Heap.onArray]
  by_cases hsame : other = tasks
  · subst hsame
    rw [List.getElem?_modify_eq, if_pos rfl]
    cases heap.arrays[other]? with
    | none => rfl
    | some array => rfl
  · rw [List.getElem?_modify_ne _ _ (Ne.symm hsame), if_neg hsame]

private theorem length_withVersion (heap : Heap) (tasks version : Nat) :
    (heap.withVersion tasks version).arrays.length = heap.arrays.length := by
  simp [Heap.withVersion, Heap.onArray]

/-- A version keeps the heap valid. -/
theorem Heap.Valid.withVersion (h : heap.Valid) (tasks version : Nat) :
    (heap.withVersion tasks version).Valid := by
  apply Heap.Valid.onArray h
  intro array harray
  have hvalid := h array (List.mem_of_getElem? harray)
  exact ⟨hvalid.nodup, hvalid.index⟩

/-- Logging changes versions only. -/
theorem taskVersionOf_valid (h : heap.Valid) (tasks : Nat) :
    (heap.taskVersionOf tasks).2.Valid ∧
      (heap.taskVersionOf tasks).2.arrays.length = heap.arrays.length := by
  unfold Heap.taskVersionOf
  split
  · exact ⟨h, rfl⟩
  · exact ⟨h.withVersion tasks _, length_withVersion heap tasks _⟩

private theorem recordTaskDelta_valid (h : heap.Valid) (base next : Nat)
    (ids : Option (List String)) :
    (heap.recordTaskDelta base next ids).Valid ∧
      (heap.recordTaskDelta base next ids).arrays.length = heap.arrays.length := by
  obtain ⟨hvalid, hlength⟩ := taskVersionOf_valid h base
  exact ⟨hvalid.withVersion next _, (length_withVersion _ next _).trans hlength⟩

private theorem finish_valid (h : heap.Valid) (draft : DaemonDraft) :
    (draft.finish heap).Valid ∧ (draft.finish heap).arrays.length = heap.arrays.length := by
  unfold DaemonDraft.finish
  split
  · exact ⟨h, rfl⟩
  · exact recordTaskDelta_valid h _ _ _

end Version

/-! ## Every array can be read -/

namespace Projection

/-- All arrays are right, and drafts and handed out arrays are arrays of the memory. -/
structure Valid (projection : Projection) : Prop where
  heap : projection.heap.Valid
  shared : ∀ tasks ∈ projection.shared, tasks < projection.heap.arrays.length
  drafts : ∀ (i : Nat) (draft : DaemonDraft), projection.drafts i = some draft →
    draft.tasks < projection.heap.arrays.length

section Step

variable {projection : Projection}

/-- An empty projection is valid. -/
theorem valid_empty : Valid {} where
  heap _ harray := absurd harray List.not_mem_nil
  shared _ htasks := absurd htasks List.not_mem_nil
  drafts _ _ hdraft := nomatch hdraft

/-- The memory grows. -/
theorem Valid.grow (h : projection.Valid) (heap : Heap) (shared : List Nat) (hvalid : heap.Valid)
    (hlength : projection.heap.arrays.length ≤ heap.arrays.length)
    (hshared : ∀ tasks ∈ shared, tasks ∈ projection.shared ∨ tasks < heap.arrays.length) :
    Valid { projection with heap, shared } where
  heap := hvalid
  shared tasks htasks := by
    rcases hshared tasks htasks with hold | hnew
    · exact Nat.lt_of_lt_of_le (h.shared tasks hold) hlength
    · exact hnew
  drafts i draft hdraft := Nat.lt_of_lt_of_le (h.drafts i draft hdraft) hlength

/-- A draft is begun, or goes on, or ends. -/
theorem Valid.update (h : projection.Valid) (i : Nat) {draft : Option DaemonDraft}
    (hdraft : ∀ current, draft = some current →
      current.tasks < projection.heap.arrays.length) :
    Valid { projection with drafts := Function.update projection.drafts i draft } where
  heap := h.heap
  shared := h.shared
  drafts j other hother := by
    by_cases hsame : j = i
    · subst hsame
      dsimp only at hother
      rw [Function.update_self] at hother
      exact hdraft other hother
    · dsimp only at hother
      rw [Function.update_of_ne hsame] at hother
      exact h.drafts j other hother

/-- An action on a draft keeps the projection valid. -/
theorem Valid.onDraft (h : projection.Valid) (i : Nat)
    {f : DaemonDraft → Heap → DaemonDraft × Heap}
    (hf : ∀ draft : DaemonDraft, draft.tasks < projection.heap.arrays.length →
      (f draft projection.heap).2.Valid ∧
        projection.heap.arrays.length ≤ (f draft projection.heap).2.arrays.length ∧
          (f draft projection.heap).1.tasks < (f draft projection.heap).2.arrays.length) :
    (projection.onDraft i f).Valid := by
  unfold Projection.onDraft
  split
  · exact h
  · next draft hdraft =>
    obtain ⟨hvalid, hlength, hinside⟩ := hf draft (h.drafts i draft hdraft)
    apply (h.grow _ projection.shared hvalid hlength fun tasks htasks ↦ Or.inl htasks).update
    intro current hcurrent
    obtain rfl := Option.some.inj hcurrent
    exact hinside

/-- A change of a draft keeps the projection valid. -/
theorem Valid.drafted (h : projection.Valid) (i : Nat)
    {f : DaemonDraft → Heap → DaemonDraft × Heap}
    (hf : ∀ draft : DaemonDraft, draft.tasks < projection.heap.arrays.length →
      Drafted draft projection.heap (f draft projection.heap).1 (f draft projection.heap).2) :
    (projection.onDraft i f).Valid := by
  apply h.onDraft
  intro draft hinside
  have hdrafted := hf draft hinside
  exact ⟨hdrafted.valid, hdrafted.worked.length, hdrafted.inside⟩

/-- Putting a table in only looks rows up. -/
theorem installTasks_valid {draft : DaemonDraft} {heap : Heap} (h : heap.Valid) (tasks : Nat) :
    Consulted heap (draft.installTasks heap tasks).2 ∧ (draft.installTasks heap tasks).2.Valid :=
  build_spec h tasks

/-- The array of a finished or reloaded draft is handed out. -/
theorem mem_shared_cons {shared : List Nat} {heap : Heap} {tasks : Nat}
    (htasks : tasks < heap.arrays.length) :
    ∀ other ∈ tasks :: shared, other ∈ shared ∨ other < heap.arrays.length := by
  intro other hother
  rcases List.mem_cons.mp hother with rfl | hother
  · exact .inr htasks
  · exact .inl hother

/-- Every step keeps the projection valid. -/
theorem Valid.step (h : projection.Valid) (action : Action) : (projection.step action).Valid := by
  cases action with
  | arrive table =>
    apply h.grow
    · exact h.heap.alloc ⟨table.nodup, fun index hindex ↦ by cases hindex⟩
    · simp
    · exact mem_shared_cons (by simp)
  | lookup tasks taskId =>
    obtain ⟨-, hconsulted, hvalid⟩ := findTaskIndex_spec h.heap tasks taskId
    exact h.grow _ _ hvalid (Nat.le_of_eq hconsulted.length.symm) fun tasks htasks ↦ .inl htasks
  | trim keep => exact h.grow _ _ h.heap (Nat.le_refl _) fun tasks htasks ↦ .inl htasks
  | begin draft baseTasks =>
    dsimp only [Projection.step]
    split
    · next hbase =>
      apply h.update
      intro current hcurrent
      obtain rfl := Option.some.inj hcurrent
      exact h.shared baseTasks hbase.1
    · exact h
  | patchTask draft taskId update =>
    dsimp only [Projection.step]
    apply h.drafted
    exact fun draft hinside ↦ patchTask_spec h.heap hinside taskId update
  | upsertTask draft task =>
    dsimp only [Projection.step]
    apply h.drafted
    exact fun draft hinside ↦ upsertTask_spec h.heap hinside task
  | removeTasks draft ids =>
    dsimp only [Projection.step]
    apply h.drafted
    exact fun draft hinside ↦ removeTasks_spec h.heap hinside ids
  | installTasks draft tasks =>
    dsimp only [Projection.step]
    split
    · next hshared =>
      apply h.onDraft
      intro draft _
      obtain ⟨hconsulted, hvalid⟩ := @installTasks_valid draft _ h.heap tasks
      refine ⟨hvalid, Nat.le_of_eq hconsulted.length.symm, ?_⟩
      rw [hconsulted.length]
      exact h.shared tasks hshared
    · exact h
  | beginReload draft =>
    dsimp only [Projection.step]
    split
    · exact h
    · next current hdraft =>
      have hinside : (current.beginReload projection.heap).1.tasks <
          (current.beginReload projection.heap).2.arrays.length := by
        simp [DaemonDraft.beginReload, Heap.alloc]
      apply (h.grow _ _ _ _ (mem_shared_cons hinside)).update
      · intro changed hchanged
        obtain rfl := Option.some.inj hchanged
        exact hinside
      · exact h.heap.alloc ⟨List.Pairwise.nil, fun index hindex ↦ by cases hindex⟩
      · simp [DaemonDraft.beginReload, Heap.alloc]
  | replace draft tasks =>
    dsimp only [Projection.step]
    split
    · next hshared =>
      apply h.onDraft
      exact fun draft _ ↦ ⟨h.heap, Nat.le_refl _, h.shared tasks hshared⟩
    · exact h
  | finish draft =>
    dsimp only [Projection.step]
    split
    · exact h
    · next current hdraft =>
      obtain ⟨hvalid, hlength⟩ := finish_valid h.heap current
      have hinside : current.tasks < (current.finish projection.heap).arrays.length := by
        rw [hlength]
        exact h.drafts draft current hdraft
      apply (h.grow _ _ hvalid (Nat.le_of_eq hlength.symm) (mem_shared_cons hinside)).update
      intro changed hchanged
      cases hchanged

end Step

private theorem valid_run (actions : List Action) : (run step {} actions).Valid :=
  run_preserves (fun _ action h ↦ h.step action) valid_empty actions

/-- The position of a task in any array of a history is that of its row, whatever other branches
have written into the map, and no task has two rows. -/
theorem findTaskIndex_run (actions : List Action) (tasks : Nat) (taskId : String) :
    ((run step {} actions).heap.findTaskIndex tasks taskId).1 =
        positionOf ((run step {} actions).heap.rows tasks) taskId ∧
      (taskIds ((run step {} actions).heap.rows tasks)).Nodup := by
  have h := valid_run actions
  exact ⟨(findTaskIndex_spec h.heap tasks taskId).1, h.heap.nodup_rows tasks⟩

end Projection

end Web
