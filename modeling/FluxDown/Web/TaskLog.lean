import FluxDown.Web.TaskHistory

/-!
# The log of versions

Library `Web`. A draft that hands out another array than it started from logs which tasks it touched.
A reader walks the log from a new array back to the one it has seen. What is not on the way is the
same in both arrays: a version stands for rows that do not change any more, and each entry of the log
is about two of them. The rows of a version are known only to the invariant, since the array may get
another version later.
-/

namespace Web

open Base

namespace Heap

/-- Read the log. -/
def deltaOf (heap : Heap) (version : Nat) : Option TaskDelta :=
  (heap.taskLog.find? fun entry ↦ entry.1 = version).map Prod.snd

/-- Walk to a version, with what was touched so far; the outer `none` is a walk that goes on
(`src/web/src/lib/rpc/apply.ts:263–268`). -/
def walkLog (heap : Heap) (target : Nat) : Nat → Nat → List String → Option (Option (List String))
  | 0, _, _ => none
  | fuel + 1, version, touched =>
    if version = target then some (some touched)
    else
      match heap.deltaOf version with
      | none => some none
      | some { ids := none, .. } => some none
      | some { parent, ids := some ids } => heap.walkLog target fuel parent (touched ++ ids)

/-- The tasks that were touched from one array to another, none if this is not known
(`apply.ts:258–269`). -/
def touchedTaskIds (heap : Heap) (prev next : Nat) : Option (Option (List String)) :=
  match heap.versionOf prev, heap.versionOf next with
  | some target, some version => heap.walkLog target (version + 1) version []
  | _, _ => some none

end Heap

/-! ## What versions and entries stand for -/

/-- Each version stands for the rows of an array that was handed out, and each entry of the log is
about two versions. -/
structure Logged (heap : Heap) (shared : List Nat) (contents : Nat → List TaskDto) : Prop where
  versions : ∀ tasks version, heap.versionOf tasks = some version →
    tasks ∈ shared ∧ version ≤ heap.taskVersionCounter ∧ contents version = heap.rows tasks
  log : ∀ version delta, (version, delta) ∈ heap.taskLog →
    delta.parent < version ∧ version ≤ heap.taskVersionCounter ∧
      ∀ ids, delta.ids = some ids → Untouched ids (contents delta.parent) (contents version)

section Logged

variable {heap heap' : Heap} {shared shared' : List Nat} {contents : Nat → List TaskDto}
  {mine : Nat → Prop}

/-- Drafts write only arrays that are not handed out. -/
theorem Logged.worked (h : Logged heap shared contents) (hworked : Worked mine heap heap')
    (hshared : ∀ tasks ∈ shared, tasks < heap.arrays.length ∧ ¬ mine tasks)
    (hsub : shared ⊆ shared') : Logged heap' shared' contents where
  versions tasks version hversion := by
    rw [hworked.versions] at hversion
    obtain ⟨hmem, hle, hrows⟩ := h.versions tasks version hversion
    obtain ⟨hinside, hnot⟩ := hshared tasks hmem
    rw [hworked.taskVersionCounter, hworked.rows tasks hinside hnot]
    exact ⟨hsub hmem, hle, hrows⟩
  log := by
    rw [hworked.taskLog, hworked.taskVersionCounter]
    exact h.log

/-- A new version of an array. -/
theorem Logged.version (h : Logged heap shared contents) {tasks : Nat} (hsub : shared ⊆ shared')
    (hmem : tasks ∈ shared') :
    Logged { heap.withVersion tasks (heap.taskVersionCounter + 1) with
        taskVersionCounter := heap.taskVersionCounter + 1 } shared'
      (Function.update contents (heap.taskVersionCounter + 1) (heap.rows tasks)) where
  versions other version hversion := by
    have hversion : (heap.withVersion tasks (heap.taskVersionCounter + 1)).versionOf other =
        some version := hversion
    show other ∈ shared' ∧ version ≤ heap.taskVersionCounter + 1 ∧ _ =
      (heap.withVersion tasks (heap.taskVersionCounter + 1)).rows other
    rw [rows_withVersion]
    rw [versionOf_withVersion] at hversion
    by_cases hsame : other = tasks
    · subst hsame
      rw [if_pos rfl] at hversion
      obtain ⟨-, -, rfl⟩ := Option.map_eq_some_iff.mp hversion
      exact ⟨hmem, Nat.le_refl _, Function.update_self _ _ _⟩
    · rw [if_neg hsame] at hversion
      obtain ⟨hold, hle, hrows⟩ := h.versions other version hversion
      have hne : version ≠ heap.taskVersionCounter + 1 := by omega
      rw [Function.update_of_ne hne]
      exact ⟨hsub hold, by omega, hrows⟩
  log version delta hentry := by
    obtain ⟨hparent, hle, huntouched⟩ := h.log version delta hentry
    have hne : version ≠ heap.taskVersionCounter + 1 := by omega
    have hne' : delta.parent ≠ heap.taskVersionCounter + 1 := by omega
    rw [Function.update_of_ne hne, Function.update_of_ne hne']
    exact ⟨hparent, Nat.le_succ_of_le hle, huntouched⟩

/-- Entries of the log may be lost at any time. -/
theorem Logged.trim (h : Logged heap shared contents) {taskLog : List (Nat × TaskDelta)}
    (hsub : taskLog ⊆ heap.taskLog) : Logged { heap with taskLog } shared contents where
  versions := h.versions
  log version delta hentry := h.log version delta (hsub hentry)

/-- One more entry of the log. -/
theorem Logged.entry (h : Logged heap shared contents) (version : Nat) (delta : TaskDelta)
    (hparent : delta.parent < version) (hle : version ≤ heap.taskVersionCounter)
    (huntouched : ∀ ids, delta.ids = some ids →
      Untouched ids (contents delta.parent) (contents version)) :
    Logged { heap with taskLog := heap.taskLog ++ [(version, delta)] } shared contents where
  versions := h.versions
  log version' delta' hentry := by
    rcases List.mem_append.mp hentry with hentry | hentry
    · exact h.log version' delta' hentry
    · obtain ⟨rfl, rfl⟩ := Prod.mk.inj (List.mem_singleton.mp hentry)
      exact ⟨hparent, hle, huntouched⟩

/-- The version of an array that was handed out, which may be a new one. -/
theorem taskVersionOf_logged (h : Logged heap shared contents) {tasks : Nat}
    (hmem : tasks ∈ shared) :
    (∃ contents', Logged (heap.taskVersionOf tasks).2 shared contents' ∧
        contents' (heap.taskVersionOf tasks).1 = heap.rows tasks) ∧
      (heap.taskVersionOf tasks).1 ≤ (heap.taskVersionOf tasks).2.taskVersionCounter ∧
        ∀ other, (heap.taskVersionOf tasks).2.rows other = heap.rows other := by
  unfold Heap.taskVersionOf
  split
  · next version hversion =>
    obtain ⟨-, hle, hrows⟩ := h.versions tasks version hversion
    exact ⟨⟨contents, h, hrows⟩, hle, fun _ ↦ rfl⟩
  · have hlogged := h.version (List.Subset.refl shared) hmem
    exact ⟨⟨_, hlogged, Function.update_self _ _ _⟩, Nat.le_refl _, rows_withVersion heap tasks _⟩

/-- A finished draft is logged. -/
theorem recordTaskDelta_logged (h : Logged heap shared contents) {base next : Nat}
    (hmem : base ∈ shared) (hsub : shared ⊆ shared') (hnext : next ∈ shared')
    {ids : Option (List String)} (huntouched : ∀ touched, ids = some touched →
      Untouched touched (heap.rows base) (heap.rows next)) :
    (∃ contents', Logged (heap.recordTaskDelta base next ids) shared' contents') ∧
      ∀ other, (heap.recordTaskDelta base next ids).rows other = heap.rows other := by
  obtain ⟨⟨contents', hlogged, hparent⟩, hle, hrows⟩ := taskVersionOf_logged h hmem
  unfold Heap.recordTaskDelta
  revert hlogged hparent hle hrows
  generalize heap.taskVersionOf base = versioned
  obtain ⟨parent, heap'⟩ := versioned
  dsimp only
  intro hlogged hparent hle hrows
  refine ⟨?_, fun other ↦ (rows_withVersion heap' next _ other).trans (hrows other)⟩
  have hversion := hlogged.version hsub hnext
  have hentry := hversion.entry (heap'.taskVersionCounter + 1) { parent, ids }
    (Nat.lt_succ_of_le hle) (Nat.le_refl _)
  refine ⟨_, (hentry ?_).trim ?_⟩
  · intro touched htouched
    have hne : parent ≠ heap'.taskVersionCounter + 1 := by omega
    rw [Function.update_self, Function.update_of_ne hne, hparent, hrows]
    exact huntouched touched htouched
  · split
    · exact List.drop_subset _ _
    · exact List.Subset.refl _

/-- The walk comes to an end, and what it finds is all that was touched. -/
theorem walkLog_spec (h : Logged heap shared contents) (target : Nat) {fuel version : Nat}
    (hfuel : version < fuel) (touched : List String) :
    ∃ result, heap.walkLog target fuel version touched = some result ∧
      ∀ found, result = some found → ∃ ids, found = touched ++ ids ∧
        Untouched ids (contents target) (contents version) := by
  induction fuel generalizing version touched with
  | zero => omega
  | succ fuel ih =>
    unfold Heap.walkLog
    split
    · next hsame =>
      subst hsame
      refine ⟨_, rfl, fun found hfound ↦ ⟨[], ?_, .refl _ _⟩⟩
      rw [List.append_nil]
      exact (Option.some.inj hfound).symm
    · split
      · exact ⟨none, rfl, fun found hfound ↦ nomatch hfound⟩
      · exact ⟨none, rfl, fun found hfound ↦ nomatch hfound⟩
      · next parent ids hdelta =>
        obtain ⟨entry, hentry, hsnd⟩ := Option.map_eq_some_iff.mp hdelta
        have hversion : entry.1 = version := by simpa using List.find?_some hentry
        have hmem : (version, { parent, ids := some ids }) ∈ heap.taskLog := by
          rw [← hversion, ← hsnd]
          exact List.mem_of_find?_eq_some hentry
        obtain ⟨hparent, -, huntouched⟩ := h.log version _ hmem
        dsimp only at hparent huntouched
        have hlt : parent < fuel := by omega
        obtain ⟨result, hresult, hfound⟩ := ih hlt (touched ++ ids)
        refine ⟨result, hresult, fun found hsome ↦ ?_⟩
        obtain ⟨more, rfl, hmore⟩ := hfound found hsome
        refine ⟨ids ++ more, List.append_assoc _ _ _, ?_⟩
        apply (hmore.trans (huntouched ids rfl)).mono
        intro taskId htaskId
        rcases List.mem_append.mp htaskId with htaskId | htaskId
        · exact List.mem_append_right _ htaskId
        · exact List.mem_append_left _ htaskId

end Logged

/-! ## What drafts remember -/

/-- A draft knows what it touched, and what it writes was not handed out. -/
structure DaemonDraft.Tracked (draft : DaemonDraft) (heap : Heap) (shared : List Nat) : Prop where
  baseTasks : draft.baseTasks ∈ shared
  owned : draft.tasksOwned = true → draft.tasks ∉ shared
  notOwned : draft.tasksOwned = false → draft.tasks ∈ shared
  touched : draft.tasksReset = false →
    Untouched draft.touched (heap.rows draft.baseTasks) (heap.rows draft.tasks)

/-- The log is right, drafts know what they touched, and no two of them write one array. -/
structure Projection.Tracked (projection : Projection) : Prop where
  logged : ∃ contents, Logged projection.heap projection.shared contents
  drafts : ∀ (i : Nat) (draft : DaemonDraft), projection.drafts i = some draft →
    draft.Tracked projection.heap projection.shared
  exclusive : ∀ (i j : Nat) (draft draft' : DaemonDraft), projection.drafts i = some draft →
    projection.drafts j = some draft' → i ≠ j → draft.tasksOwned = true →
      draft'.tasksOwned = true → draft.tasks ≠ draft'.tasks

namespace Projection

section Tracked

variable {projection : Projection}

private theorem tracked_empty : Tracked {} where
  logged := by
    refine ⟨fun _ ↦ [], ?_⟩
    constructor
    · intro tasks version hversion
      simp [Heap.versionOf] at hversion
    · exact fun version delta hentry ↦ absurd hentry List.not_mem_nil
  drafts _ _ hdraft := nomatch hdraft
  exclusive _ _ _ _ hdraft := nomatch hdraft

/-- A draft is begun, or goes on, or ends. -/
theorem Tracked.update (h : projection.Tracked) (i : Nat) (draft : Option DaemonDraft)
    (hdraft : ∀ current, draft = some current →
      current.Tracked projection.heap projection.shared ∧
        (current.tasksOwned = true → ∀ j other, j ≠ i → projection.drafts j = some other →
          other.tasksOwned = true → current.tasks ≠ other.tasks)) :
    Tracked { projection with drafts := Function.update projection.drafts i draft } where
  logged := h.logged
  drafts j other hother := by
    dsimp only at hother
    by_cases hsame : j = i
    · subst hsame
      rw [Function.update_self] at hother
      exact (hdraft other hother).1
    · rw [Function.update_of_ne hsame] at hother
      exact h.drafts j other hother
  exclusive j k current other hcurrent hother hne howned howned' := by
    dsimp only at hcurrent hother
    by_cases hj : j = i
    · subst hj
      rw [Function.update_self] at hcurrent
      rw [Function.update_of_ne (Ne.symm hne)] at hother
      exact (hdraft current hcurrent).2 howned k other (Ne.symm hne) hother howned'
    · rw [Function.update_of_ne hj] at hcurrent
      by_cases hk : k = i
      · subst hk
        rw [Function.update_self] at hother
        exact Ne.symm ((hdraft other hother).2 howned' j current hj hcurrent howned)
      · rw [Function.update_of_ne hk] at hother
        exact h.exclusive j k current other hcurrent hother hne howned howned'

/-- The memory grows, and arrays are handed out that no draft writes. -/
theorem Tracked.grow (h : projection.Tracked) (heap : Heap) (shared : List Nat)
    (hlogged : ∃ contents, Logged heap shared contents) (hsub : projection.shared ⊆ shared)
    (hshared : ∀ tasks ∈ projection.shared, heap.rows tasks = projection.heap.rows tasks)
    (hdrafts : ∀ i draft, projection.drafts i = some draft →
      heap.rows draft.tasks = projection.heap.rows draft.tasks ∧
        (draft.tasksOwned = true → draft.tasks ∉ shared)) :
    Tracked { projection with heap, shared } where
  logged := hlogged
  drafts i draft hdraft := by
    have htracked := h.drafts i draft hdraft
    obtain ⟨hrows, howned⟩ := hdrafts i draft hdraft
    refine ⟨hsub htracked.baseTasks, howned, fun hnot ↦ hsub (htracked.notOwned hnot), ?_⟩
    intro hreset
    dsimp only
    rw [hrows, hshared _ htracked.baseTasks]
    exact htracked.touched hreset
  exclusive := h.exclusive

/-- What a draft writes was not handed out. -/
theorem not_mine_of_shared (h : projection.Tracked) (hvalid : projection.Valid) {i : Nat}
    {draft draft' : DaemonDraft} {heap' : Heap} (hdraft : projection.drafts i = some draft)
    (hdrafted : Drafted draft projection.heap draft' heap') {tasks : Nat}
    (hmem : tasks ∈ projection.shared) : ¬ draft'.mine tasks := by
  rintro ⟨howned', rfl⟩
  rcases hdrafted.owned howned' with ⟨howned, hsame⟩ | hfresh
  · apply (h.drafts i draft hdraft).owned howned
    rwa [← hsame]
  · have hinside := hvalid.shared _ hmem
    omega

/-- What a draft writes is not in another draft. -/
theorem not_mine_of_other (h : projection.Tracked) (hvalid : projection.Valid) {i j : Nat}
    {draft draft' other : DaemonDraft} {heap' : Heap} (hdraft : projection.drafts i = some draft)
    (hdrafted : Drafted draft projection.heap draft' heap') (hne : j ≠ i)
    (hother : projection.drafts j = some other) : ¬ draft'.mine other.tasks := by
  cases howner : other.tasksOwned with
  | false =>
    exact not_mine_of_shared h hvalid hdraft hdrafted ((h.drafts j other hother).notOwned howner)
  | true =>
    rintro ⟨howned', hsame⟩
    rcases hdrafted.owned howned' with ⟨howned, hsame'⟩ | hfresh
    · exact h.exclusive i j draft other hdraft hother (Ne.symm hne) howned howner
        (hsame'.symm.trans hsame.symm)
    · have hinside := hvalid.drafts j other hother
      omega

/-- A draft writes tasks. -/
theorem Tracked.drafted (h : projection.Tracked) (hvalid : projection.Valid) (i : Nat)
    {f : DaemonDraft → Heap → DaemonDraft × Heap}
    (hf : ∀ draft : DaemonDraft, draft.tasks < projection.heap.arrays.length →
      Drafted draft projection.heap (f draft projection.heap).1 (f draft projection.heap).2) :
    (projection.onDraft i f).Tracked := by
  unfold Projection.onDraft
  split
  · exact h
  · next draft hdraft =>
    have hdrafted := hf draft (hvalid.drafts i draft hdraft)
    revert hdrafted
    generalize f draft projection.heap = written
    obtain ⟨draft', heap'⟩ := written
    dsimp only
    intro hdrafted
    have hworked := hdrafted.worked
    have hshared : ∀ tasks ∈ projection.shared, tasks < projection.heap.arrays.length ∧
        ¬ draft'.mine tasks := fun tasks hmem ↦
      ⟨hvalid.shared tasks hmem, not_mine_of_shared h hvalid hdraft hdrafted hmem⟩
    have hrows : ∀ tasks ∈ projection.shared, heap'.rows tasks = projection.heap.rows tasks :=
      fun tasks hmem ↦ hworked.rows tasks (hshared tasks hmem).1 (hshared tasks hmem).2
    have htracked := h.drafts i draft hdraft
    -- the others go on without it
    have hremoved := h.update i none fun _ hnone ↦ nomatch hnone
    have hgrown := hremoved.grow heap' projection.shared
      (by
        obtain ⟨contents, hlogged⟩ := h.logged
        exact ⟨contents, hlogged.worked hworked hshared (List.Subset.refl _)⟩)
      (List.Subset.refl _) hrows (by
        intro j other hother
        have hne : j ≠ i := by
          rintro rfl
          simp at hother
        dsimp only at hother
        rw [Function.update_of_ne hne] at hother
        exact ⟨hworked.rows _ (hvalid.drafts j other hother)
          (not_mine_of_other h hvalid hdraft hdrafted hne hother), (h.drafts j other hother).owned⟩)
    have hupdated := hgrown.update i (some draft') (by
      rintro current hcurrent
      obtain rfl := Option.some.inj hcurrent
      refine ⟨?_, ?_⟩
      · constructor
        case baseTasks =>
          rw [hdrafted.baseTasks]
          exact htracked.baseTasks
        case owned => exact fun howned hmem ↦ (hshared _ hmem).2 ⟨howned, rfl⟩
        case notOwned =>
          intro hnot
          obtain ⟨hnot', hsame⟩ := hdrafted.notOwned hnot
          rw [hsame]
          exact htracked.notOwned hnot'
        case touched =>
          intro hreset
          rw [hdrafted.tasksReset] at hreset
          obtain ⟨ids, htouched, huntouched⟩ := hdrafted.touched
          dsimp only
          rw [htouched, hdrafted.baseTasks, hrows _ htracked.baseTasks]
          exact (htracked.touched hreset).trans huntouched
      · intro howned j other hne hother _ hsame
        dsimp only at hother
        rw [Function.update_of_ne hne] at hother
        exact not_mine_of_other h hvalid hdraft hdrafted hne hother ⟨howned, hsame.symm⟩)
    simpa only [Function.update_idem] using hupdated

/-- Arrays are added, and some of them are handed out. -/
theorem Tracked.worked (h : projection.Tracked) (hvalid : projection.Valid) {heap : Heap}
    {shared : List Nat} (hworked : Worked (fun _ ↦ False) projection.heap heap)
    (hsub : projection.shared ⊆ shared)
    (hnew : ∀ tasks ∈ shared, tasks ∈ projection.shared ∨ projection.heap.arrays.length ≤ tasks) :
    Tracked { projection with heap, shared } := by
  apply h.grow heap shared
  · obtain ⟨contents, hlogged⟩ := h.logged
    exact ⟨contents, hlogged.worked hworked (fun tasks hmem ↦ ⟨hvalid.shared tasks hmem, id⟩) hsub⟩
  · exact hsub
  · exact fun tasks hmem ↦ hworked.rows tasks (hvalid.shared tasks hmem) id
  · intro i draft hdraft
    have hinside := hvalid.drafts i draft hdraft
    refine ⟨hworked.rows _ hinside id, fun howned hmem ↦ ?_⟩
    rcases hnew _ hmem with hold | hfresh
    · exact (h.drafts i draft hdraft).owned howned hold
    · omega

/-- A draft takes an array that was handed out. -/
theorem Tracked.take (h : projection.Tracked) {i : Nat} {draft : DaemonDraft}
    (hdraft : projection.drafts i = some draft) {tasks : Nat} (hmem : tasks ∈ projection.shared) :
    Tracked { projection with
      drafts := Function.update projection.drafts i (some (draft.replace tasks)) } := by
  apply h.update
  intro current hcurrent
  obtain rfl := Option.some.inj hcurrent
  refine ⟨?_, fun howned ↦ Bool.noConfusion howned⟩
  constructor
  case baseTasks => exact (h.drafts i draft hdraft).baseTasks
  case owned => exact fun howned ↦ Bool.noConfusion howned
  case notOwned => exact fun _ ↦ hmem
  case touched => exact fun hreset ↦ Bool.noConfusion hreset

/-- A draft is finished, and its array is handed out. -/
theorem Tracked.finish (h : projection.Tracked) {i : Nat} {draft : DaemonDraft}
    (hdraft : projection.drafts i = some draft) :
    Tracked { heap := draft.finish projection.heap
              drafts := Function.update projection.drafts i none
              shared := draft.tasks :: projection.shared } := by
  have htracked := h.drafts i draft hdraft
  have hsub := List.subset_cons_self draft.tasks projection.shared
  obtain ⟨contents, hlogged⟩ := h.logged
  have hfinished : (∃ contents, Logged (draft.finish projection.heap)
      (draft.tasks :: projection.shared) contents) ∧
        ∀ other, (draft.finish projection.heap).rows other = projection.heap.rows other := by
    unfold DaemonDraft.finish
    split
    · exact ⟨⟨contents, fun tasks version hversion ↦ ⟨hsub (hlogged.versions tasks version hversion).1,
        (hlogged.versions tasks version hversion).2⟩, hlogged.log⟩, fun _ ↦ rfl⟩
    · apply recordTaskDelta_logged hlogged htracked.baseTasks hsub List.mem_cons_self
      intro touched htouched
      split at htouched
      · cases htouched
      · next hreset =>
        obtain rfl := Option.some.inj htouched
        exact htracked.touched (Bool.not_eq_true _ ▸ hreset)
  have hremoved := h.update i none fun _ hnone ↦ nomatch hnone
  apply hremoved.grow _ _ hfinished.1 hsub fun tasks _ ↦ hfinished.2 tasks
  intro j other hother
  have hne : j ≠ i := by
    rintro rfl
    simp at hother
  dsimp only at hother
  rw [Function.update_of_ne hne] at hother
  refine ⟨hfinished.2 _, fun howned hmem ↦ ?_⟩
  have hother_tracked := h.drafts j other hother
  rcases List.mem_cons.mp hmem with hsame | hmem
  · cases howner : draft.tasksOwned with
    | true => exact h.exclusive j i other draft hother hdraft hne howned howner hsame
    | false =>
      apply hother_tracked.owned howned
      rw [hsame]
      exact htracked.notOwned howner
  · exact hother_tracked.owned howned hmem

private theorem Tracked.step (h : projection.Tracked) (hvalid : projection.Valid)
    (action : Action) :
    (projection.step action).Tracked := by
  cases action with
  | arrive table =>
    apply h.worked hvalid (worked_alloc _ _ _ _) (List.subset_cons_self _ _)
    intro tasks hmem
    rcases List.mem_cons.mp hmem with rfl | hmem
    · exact .inr (Nat.le_refl _)
    · exact .inl hmem
  | lookup tasks taskId =>
    obtain ⟨-, hconsulted, -⟩ := findTaskIndex_spec hvalid.heap tasks taskId
    exact h.worked hvalid (hconsulted.worked _) (List.Subset.refl _) fun tasks hmem ↦ .inl hmem
  | trim keep =>
    apply h.grow
    · obtain ⟨contents, hlogged⟩ := h.logged
      exact ⟨contents, hlogged.trim (List.filter_subset_self _)⟩
    · exact List.Subset.refl _
    · exact fun _ _ ↦ rfl
    · exact fun i draft hdraft ↦ ⟨rfl, (h.drafts i draft hdraft).owned⟩
  | begin draft baseTasks =>
    dsimp only [Projection.step]
    split
    · next hbase =>
      apply h.update
      intro current hcurrent
      obtain rfl := Option.some.inj hcurrent
      refine ⟨?_, fun howned ↦ Bool.noConfusion howned⟩
      exact ⟨hbase.1, fun howned ↦ Bool.noConfusion howned, fun _ ↦ hbase.1, fun _ ↦ .refl _ _⟩
    · exact h
  | patchTask draft taskId update =>
    dsimp only [Projection.step]
    apply h.drafted hvalid
    exact fun draft hinside ↦ patchTask_spec hvalid.heap hinside taskId update
  | upsertTask draft task =>
    dsimp only [Projection.step]
    apply h.drafted hvalid
    exact fun draft hinside ↦ upsertTask_spec hvalid.heap hinside task
  | removeTasks draft ids =>
    dsimp only [Projection.step]
    apply h.drafted hvalid
    exact fun draft hinside ↦ removeTasks_spec hvalid.heap hinside ids
  | installTasks draft tasks =>
    dsimp only [Projection.step]
    split
    · next hmem =>
      unfold Projection.onDraft
      split
      · exact h
      · next current hdraft =>
        obtain ⟨hconsulted, -⟩ := @installTasks_valid current _ hvalid.heap tasks
        have hgrown := h.worked hvalid (hconsulted.worked _) (List.Subset.refl _)
          fun tasks hmem ↦ .inl hmem
        exact hgrown.take hdraft hmem
    · exact h
  | beginReload draft =>
    dsimp only [Projection.step]
    split
    · exact h
    · next current hdraft =>
      have hgrown := h.worked hvalid (worked_alloc _ projection.heap [] none)
        (List.subset_cons_self (current.beginReload projection.heap).1.tasks projection.shared) (by
          intro tasks hmem
          rcases List.mem_cons.mp hmem with rfl | hmem
          · exact .inr (Nat.le_refl _)
          · exact .inl hmem)
      exact hgrown.take hdraft List.mem_cons_self
  | replace draft tasks =>
    dsimp only [Projection.step]
    split
    · next hmem =>
      unfold Projection.onDraft
      split
      · exact h
      · next current hdraft => exact h.take hdraft hmem
    · exact h
  | finish draft =>
    dsimp only [Projection.step]
    split
    · exact h
    · next current hdraft => exact h.finish hdraft

end Tracked

private theorem tracked_run (actions : List Action) :
    (run step {} actions).Tracked ∧ (run step {} actions).Valid := by
  apply @run_preserves Projection Action step fun projection ↦ projection.Tracked ∧ projection.Valid
  · exact fun _ action h ↦ ⟨h.1.step h.2 action, h.2.step action⟩
  · exact ⟨tracked_empty, valid_empty⟩

/-- Walking the log comes to an end. If it tells which tasks were touched between two arrays, then
each other task has the same row in both or in none, and such rows are in the same order. -/
theorem touchedTaskIds_run (actions : List Action) (prev next : Nat) :
    ∃ result, (run step {} actions).heap.touchedTaskIds prev next = some result ∧
      ∀ touched, result = some touched →
        (∀ taskId ∉ touched,
          (((run step {} actions).heap.rows prev).find? fun task ↦ task.taskId = taskId) =
            ((run step {} actions).heap.rows next).find? fun task ↦ task.taskId = taskId) ∧
        Untouched touched ((run step {} actions).heap.rows prev)
          ((run step {} actions).heap.rows next) := by
  obtain ⟨contents, hlogged⟩ := (tracked_run actions).1.logged
  generalize (run step {} actions).heap = heap at hlogged
  unfold Heap.touchedTaskIds
  split
  · next target version htarget hversion =>
    obtain ⟨-, -, hprev⟩ := hlogged.versions prev target htarget
    obtain ⟨-, -, hnext⟩ := hlogged.versions next version hversion
    obtain ⟨result, hresult, hfound⟩ := walkLog_spec hlogged target (Nat.lt_succ_self version) []
    refine ⟨result, hresult, fun touched htouched ↦ ?_⟩
    obtain ⟨ids, hids, huntouched⟩ := hfound touched htouched
    rw [List.nil_append] at hids
    subst hids
    rw [hprev, hnext] at huntouched
    exact ⟨fun taskId hnot ↦ huntouched.find?_eq hnot, huntouched⟩
  · exact ⟨none, rfl, fun touched htouched ↦ nomatch htouched⟩

end Projection

end Web
