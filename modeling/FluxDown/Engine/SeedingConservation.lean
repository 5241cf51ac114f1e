import FluxDown.Base.Indexed
import FluxDown.Engine.SeedingSafety

/-!
# Bytes and seconds of the seeders

Library `Engine`. In a run whose steps neither drop unpersisted bytes nor write them twice, the
bytes in the database and the unpersisted ones are all that was returned, and the seeding time
of a task is its base with the whole seconds of its stints.
-/

namespace Engine.SeedingSystem

open Base SeedingManager

/-- Unpersisted bytes of a task among the active rows. -/
def unpersistedOf (rows : List (String × SeedingEntry)) (taskId : String) : Int :=
  ((lastRow? Prod.fst taskId rows).map fun row ↦ row.2.unpersistedUpload).getD 0

/-- Unpersisted bytes of a task. -/
def unpersisted (s : SeedingSystem) (taskId : String) : Int :=
  unpersistedOf s.manager.active taskId

/-- Bytes of a task among the items. -/
def bytesOf (items : List (String × Int)) (taskId : String) : Int :=
  ((items.filter (·.1 = taskId)).map Prod.snd).sum

/-- Bytes of a task that a sequence has written and not marked. -/
def persistInFlight (taskId : String) (p : Persist) : Int :=
  if p.phase = .written then bytesOf p.uploads taskId else 0

/-- Bytes of a task between their write and their mark. -/
def inFlight (s : SeedingSystem) (taskId : String) : Int :=
  (s.persists.map (persistInFlight taskId)).sum

/-- The step drops no unpersisted bytes, writes none twice and leaves them below the largest
number of 64 bits. -/
def Accounted (s : SeedingSystem) : Op → Prop
  | .register _ _ _ base => -2 ^ 63 ≤ base ∧ base ≤ 2 ^ 63 - 1
  | .reconcile _ =>
    ∀ row ∈ s.manager.active, Surplus s.manager row → row.2.unpersistedUpload = 0
  | .applyUploadSnapshot taskId counter _ =>
    ∀ row ∈ s.manager.active, row.1 = taskId →
      row.2.unpersistedUpload + row.2.delta counter ≤ 2 ^ 63 - 1
  | .writeUploads persist =>
    ∀ p ∈ s.persists[persist]?, p.phase = .taken → ∀ item ∈ p.uploads,
      bytesOf p.uploads item.1 + s.inFlight item.1 ≤ s.unpersisted item.1
  | .unregister taskId => s.unpersisted taskId = 0
  | _ => True

/-- Bytes are neither lost nor counted twice. -/
structure Conserved (s : SeedingSystem) : Prop where
  covered : ∀ taskId, s.inFlight taskId ≤ s.unpersisted taskId
  balance : ∀ taskId, s.ledger.written taskId + s.unpersisted taskId =
    s.ledger.returned taskId + s.inFlight taskId
  small : ∀ taskId, s.unpersisted taskId ≤ 2 ^ 63 - 1
  positive : ∀ p ∈ s.persists, ∀ item ∈ p.uploads, 0 < item.2

section Bytes

/-- No writes have no bytes. -/
@[simp] theorem bytesOf_nil (taskId : String) : bytesOf [] taskId = 0 := rfl

private theorem bytesOf_cons (item : String × Int) (items : List (String × Int)) (taskId : String) :
    bytesOf (item :: items) taskId =
      (if item.1 = taskId then item.2 else 0) + bytesOf items taskId := by
  unfold bytesOf
  by_cases h : item.1 = taskId
  · rw [List.filter_cons_of_pos (by simpa using h), List.map_cons, List.sum_cons, if_pos h]
  · rw [List.filter_cons_of_neg (by simpa using h), if_neg h, Int.zero_add]

private theorem bytesOf_nonneg {items : List (String × Int)} (h : ∀ item ∈ items, 0 < item.2)
    (taskId : String) : 0 ≤ bytesOf items taskId := by
  induction items with
  | nil => exact Int.le_refl 0
  | cons item items ih =>
    obtain ⟨hitem, hitems⟩ := List.forall_mem_cons.mp h
    have hrest := ih hitems
    rw [bytesOf_cons]
    split <;> omega

private theorem bytesOf_of_notMem {items : List (String × Int)} {taskId : String}
    (h : taskId ∉ items.map Prod.fst) : bytesOf items taskId = 0 := by
  induction items with
  | nil => rfl
  | cons item items ih =>
    rw [List.map_cons, List.mem_cons, not_or] at h
    rw [bytesOf_cons, if_neg (Ne.symm h.1), ih h.2, Int.zero_add]

private theorem foldl_noteWritten (items : List (String × Int)) (l : SeedingLedger)
    (taskId : String) :
    (items.foldl SeedingLedger.noteWritten l).written taskId =
      l.written taskId + bytesOf items taskId := by
  induction items generalizing l with
  | nil => exact (Int.add_zero _).symm
  | cons item items ih =>
    rw [List.foldl_cons, ih, bytesOf_cons]
    change Function.update l.written item.1 (l.written item.1 + item.2) taskId + _ = _
    by_cases h : item.1 = taskId
    · subst h
      rw [Function.update_self, if_pos rfl, Int.add_assoc]
    · rw [Function.update_of_ne (Ne.symm h), if_neg h, Int.zero_add]

private theorem persistInFlight_nonneg {p : Persist} (h : ∀ item ∈ p.uploads, 0 < item.2)
    (taskId : String) : 0 ≤ persistInFlight taskId p := by
  unfold persistInFlight
  split
  · exact bytesOf_nonneg h taskId
  · exact Int.le_refl 0

private theorem sum_nonneg {persists : List Persist}
    (h : ∀ p ∈ persists, ∀ item ∈ p.uploads, 0 < item.2) (taskId : String) :
    0 ≤ (persists.map (persistInFlight taskId)).sum := by
  induction persists with
  | nil => exact Int.le_refl 0
  | cons p persists ih =>
    obtain ⟨hp, hrest⟩ := List.forall_mem_cons.mp h
    rw [List.map_cons, List.sum_cons]
    have := persistInFlight_nonneg hp taskId
    have := ih hrest
    omega

private theorem Conserved.inFlight_nonneg {s : SeedingSystem} (h : s.Conserved) (taskId : String) :
    0 ≤ s.inFlight taskId :=
  sum_nonneg h.positive taskId

/-- The bytes that are not yet written are not negative. -/
theorem Conserved.unpersisted_nonneg {s : SeedingSystem} (h : s.Conserved) (taskId : String) :
    0 ≤ s.unpersisted taskId :=
  Int.le_trans (h.inFlight_nonneg taskId) (h.covered taskId)

/-- Moving a sequence on exchanges what it has in flight. -/
theorem inFlight_setPhase {s : SeedingSystem} {n : Nat} {p : Persist}
    (hp : s.persists[n]? = some p) (phase : PersistPhase) (taskId : String) :
    (s.setPhase n phase).inFlight taskId + persistInFlight taskId p =
      s.inFlight taskId + persistInFlight taskId { p with phase } := by
  obtain ⟨before, after, hsplit, -, hmodify⟩ :=
    exists_split_modify (f := fun p : Persist ↦ { p with phase }) hp
  rw [inFlight, inFlight, setPhase, hmodify, hsplit]
  simp only [List.map_append, List.map_cons, List.sum_append, List.sum_cons]
  omega

private theorem mem_setPhase {s : SeedingSystem} {n : Nat} {phase : PersistPhase} {p : Persist}
    (hp : p ∈ (s.setPhase n phase).persists) : ∃ q ∈ s.persists, p.uploads = q.uploads := by
  obtain ⟨m, hm⟩ := List.getElem?_of_mem hp
  rcases getElem?_modify_some hm with ⟨-, q, hq, rfl⟩ | ⟨-, hq⟩
  · exact ⟨q, List.mem_of_getElem? hq, rfl⟩
  · exact ⟨p, List.mem_of_getElem? hq, rfl⟩

private theorem positive_setPhase {s : SeedingSystem} (h : s.Conserved) (n : Nat)
    (phase : PersistPhase) :
    ∀ p ∈ (s.setPhase n phase).persists, ∀ item ∈ p.uploads, 0 < item.2 := by
  intro p hp
  obtain ⟨q, hq, huploads⟩ := mem_setPhase hp
  rw [huploads]
  exact h.positive q hq

end Bytes

section Rows

private theorem clampI64_of_mem {n : Int} (hlow : -2 ^ 63 ≤ n) (hhigh : n ≤ 2 ^ 63 - 1) :
    clampI64 n = n := by
  unfold clampI64
  omega

private theorem unpersistedOf_of_mem {rows : List (String × SeedingEntry)}
    (hnodup : (rows.map Prod.fst).Nodup) {row : String × SeedingEntry} (hrow : row ∈ rows) :
    unpersistedOf rows row.1 = row.2.unpersistedUpload := by
  rw [unpersistedOf, (lastRow?_eq_some_iff hnodup).mpr ⟨hrow, rfl⟩]
  rfl

/-- New rows without unpersisted bytes, for tasks that were not active. -/
theorem unpersistedOf_append {rows fresh : List (String × SeedingEntry)}
    (hfresh : ∀ row ∈ fresh, row.2.unpersistedUpload = 0 ∧ row.1 ∉ rows.map Prod.fst)
    (taskId : String) : unpersistedOf (rows ++ fresh) taskId = unpersistedOf rows taskId := by
  rw [unpersistedOf, lastRow?_append, unpersistedOf]
  cases hfound : lastRow? Prod.fst taskId fresh with
  | none => rw [Option.none_or]
  | some row =>
    obtain ⟨hmem, rfl⟩ := lastRow?_eq_some hfound
    obtain ⟨hzero, hnot⟩ := hfresh row hmem
    have habsent : lastRow? Prod.fst row.1 rows = none := by
      rw [lastRow?_eq_none_iff]
      exact fun other hother heq ↦ hnot (heq ▸ List.mem_map_of_mem hother)
    rw [habsent, Option.some_or]
    exact hzero

/-- Removed rows had no unpersisted bytes. -/
theorem unpersistedOf_filter {rows : List (String × SeedingEntry)} {ids : List String}
    (h : ∀ taskId ∈ ids, unpersistedOf rows taskId = 0) (taskId : String) :
    unpersistedOf (rows.filter fun row ↦ row.1 ∉ ids) taskId = unpersistedOf rows taskId := by
  have hfilter : lastRow? Prod.fst taskId (rows.filter fun row ↦ row.1 ∉ ids) = _ :=
    lastRow?_filter ids taskId rows
  by_cases hin : taskId ∈ ids
  · rw [h taskId hin, unpersistedOf, hfilter, if_pos hin]
    rfl
  · rw [unpersistedOf, hfilter, if_neg hin]
    rfl

/-- Rewriting the row of one task changes its bytes alone. -/
theorem unpersistedOf_modifyRow (f : SeedingEntry → SeedingEntry) (taskId other : String)
    (rows : List (String × SeedingEntry)) :
    unpersistedOf (modifyRow Prod.fst taskId (fun row ↦ (row.1, f row.2)) rows) other =
      if other = taskId then
        ((lastRow? Prod.fst taskId rows).map fun row ↦ (f row.2).unpersistedUpload).getD 0
      else unpersistedOf rows other := by
  have hkeeps : KeepsKey Prod.fst taskId (fun row : String × SeedingEntry ↦ (row.1, f row.2)) :=
    fun _ hkey ↦ hkey
  rw [unpersistedOf, lastRow?_modifyRow hkeeps]
  by_cases h : other = taskId
  · subst h
    rw [if_pos rfl, if_pos rfl, Option.map_map]
    rfl
  · rw [if_neg h, if_neg h]
    rfl

/-- Marking takes the bytes off, task by task. -/
theorem unpersistedOf_mark {items : List (String × Int)}
    (hpositive : ∀ item ∈ items, 0 < item.2) {rows : List (String × SeedingEntry)}
    (hcovered : ∀ taskId, bytesOf items taskId ≤ unpersistedOf rows taskId)
    (hsmall : ∀ taskId, unpersistedOf rows taskId ≤ 2 ^ 63 - 1) (taskId : String) :
    unpersistedOf
      (items.foldl (fun active item ↦ modifyRow Prod.fst item.1
        (fun row ↦ (row.1,
          { row.2 with unpersistedUpload := saturatingSub row.2.unpersistedUpload item.2 }))
        active) rows) taskId =
      unpersistedOf rows taskId - bytesOf items taskId := by
  induction items generalizing rows with
  | nil => exact (Int.sub_zero _).symm
  | cons item items ih =>
    obtain ⟨hitem, hitems⟩ := List.forall_mem_cons.mp hpositive
    have hstep : ∀ other, unpersistedOf (modifyRow Prod.fst item.1
        (fun row ↦ (row.1,
          { row.2 with unpersistedUpload := saturatingSub row.2.unpersistedUpload item.2 }))
        rows) other =
        unpersistedOf rows other - if item.1 = other then item.2 else 0 := by
      intro other
      rw [unpersistedOf_modifyRow fun entry ↦
        { entry with unpersistedUpload := saturatingSub entry.unpersistedUpload item.2 }]
      by_cases h : other = item.1
      · subst h
        have hcov := hcovered item.1
        have hrest := bytesOf_nonneg hitems item.1
        have hsm := hsmall item.1
        rw [bytesOf_cons, if_pos rfl] at hcov
        rw [if_pos rfl, if_pos rfl]
        unfold unpersistedOf at hcov hsm ⊢
        cases hrow : lastRow? Prod.fst item.1 rows with
        | none =>
          rw [hrow, Option.map_none, Option.getD_none] at hcov
          omega
        | some row =>
          rw [hrow, Option.map_some, Option.getD_some] at hcov hsm
          rw [Option.map_some, Option.getD_some, Option.map_some, Option.getD_some]
          exact clampI64_of_mem (by omega) (by omega)
      · rw [if_neg h, if_neg (Ne.symm h), Int.sub_zero]
    rw [List.foldl_cons, ih hitems, hstep, bytesOf_cons]
    · omega
    · intro other
      have hcov := hcovered other
      rw [bytesOf_cons] at hcov
      rw [hstep]
      omega
    · intro other
      have hsm := hsmall other
      rw [hstep]
      split <;> omega

end Rows

section Conservation

private theorem Conserved.of_same {s s' : SeedingSystem} (h : s.Conserved)
    (hunpersisted : ∀ taskId, s'.unpersisted taskId = s.unpersisted taskId)
    (hpersists : s'.persists = s.persists) (hwritten : s'.ledger.written = s.ledger.written)
    (hreturned : s'.ledger.returned = s.ledger.returned) : s'.Conserved := by
  have hflight : ∀ taskId, s'.inFlight taskId = s.inFlight taskId := by
    intro taskId
    rw [inFlight, hpersists, inFlight]
  refine ⟨?_, ?_, ?_, ?_⟩
  · intro taskId
    rw [hflight, hunpersisted]
    exact h.covered taskId
  · intro taskId
    rw [hflight, hunpersisted, hwritten, hreturned]
    exact h.balance taskId
  · intro taskId
    rw [hunpersisted]
    exact h.small taskId
  · rw [hpersists]
    exact h.positive

private theorem unpersisted_register (m : SeedingManager) (now : Nat) (taskId : String)
    (uploaded counter base : Int) (other : String) :
    unpersistedOf (m.register now taskId uploaded counter base).1.active other =
      unpersistedOf m.active other := by
  rcases register_cases m now taskId uploaded counter base with
    ⟨-, heq⟩ | ⟨hnot, -, heq⟩ | ⟨-, -, heq⟩
  · rw [heq]
  · rw [heq]
    apply unpersistedOf_append
    intro row hrow
    rw [List.mem_singleton] at hrow
    subst hrow
    exact ⟨rfl, (contains_eq_false hnot).1⟩
  · rw [heq]

private theorem conserved_reconcile {s : SeedingSystem} (h : s.Conserved)
    (hdistinct : s.manager.Distinct) {ticks : List Nat} (hacc : s.Accounted (.reconcile ticks)) :
    (s.step (.reconcile ticks)).Conserved := by
  rcases reconcile_step s hdistinct ticks with
    ⟨fresh, seeds, rest, now', hp, -, -, heq⟩ | ⟨parked, hd, hsurplus, -, -, heq⟩
  · rw [heq, foldl_noteActivated]
    refine h.of_same ?_ rfl rfl rfl
    apply unpersistedOf_append
    intro row hrow
    constructor
    · obtain ⟨seed, -, hseed⟩ := Promotion.of_seed hp hrow
      rw [hseed]
      rfl
    · intro hin
      have hqueued : row.1 ∈ s.manager.queued.map Prod.fst := by
        rw [hp.queue, List.map_append, ← Promotion.ids hp]
        exact List.mem_append_left _ (List.mem_map_of_mem hrow)
      exact (List.nodup_append.mp hdistinct).2.2 row.1 hin row.1 hqueued rfl
  · rw [heq, foldl_noteStint]
    refine h.of_same ?_ rfl rfl rfl
    apply unpersistedOf_filter
    intro taskId hin
    obtain ⟨row, hrow, rfl⟩ := List.mem_map.mp hin
    rw [unpersistedOf_of_mem (List.nodup_append.mp hdistinct).1 (hd.active row hrow)]
    exact hacc row (hd.active row hrow) (hsurplus row hrow)

private theorem conserved_applyUploadSnapshot {s : SeedingSystem} (h : s.Conserved)
    {taskId : String} {counter : Nat} {speed : Int}
    (hacc : s.Accounted (.applyUploadSnapshot taskId counter speed)) :
    (s.applyUploadSnapshot taskId counter speed).Conserved := by
  unfold applyUploadSnapshot SeedingManager.applyUploadSnapshot
  rw [if_neg (by omega)]
  cases hrow : lastRow? Prod.fst taskId s.manager.active with
  | none =>
    refine h.of_same (fun _ ↦ rfl) rfl rfl ?_
    change Function.update s.ledger.returned taskId (s.ledger.returned taskId + 0) = _
    rw [Int.add_zero, Function.update_eq_self]
  | some row =>
    obtain ⟨hmem, hkey⟩ := lastRow?_eq_some hrow
    have hbelow := hacc row hmem hkey
    have hdelta : 0 ≤ row.2.delta counter := by
      unfold SeedingEntry.delta SeedingEntry.baseline
      split <;> omega
    have hown : s.unpersisted taskId = row.2.unpersistedUpload := by
      rw [unpersisted, unpersistedOf, hrow]
      rfl
    have hzero := h.unpersisted_nonneg taskId
    have hunpersisted : ∀ other, unpersistedOf (modifyRow Prod.fst taskId
        (fun row ↦ (row.1, row.2.sample s.now counter speed)) s.manager.active) other =
        s.unpersisted other + if other = taskId then row.2.delta counter else 0 := by
      intro other
      rw [unpersistedOf_modifyRow fun entry ↦ entry.sample s.now counter speed]
      by_cases hother : other = taskId
      · subst hother
        rw [if_pos rfl, if_pos rfl, hrow, Option.map_some, Option.getD_some, hown]
        exact clampI64_of_mem (by omega) hbelow
      · rw [if_neg hother, if_neg hother, Int.add_zero, unpersisted]
    have hreturned : ∀ other, Function.update s.ledger.returned taskId
        (s.ledger.returned taskId + row.2.delta counter) other =
        s.ledger.returned other + if other = taskId then row.2.delta counter else 0 := by
      intro other
      by_cases hother : other = taskId
      · subst hother
        rw [Function.update_self, if_pos rfl]
      · rw [Function.update_of_ne hother, if_neg hother, Int.add_zero]
    refine ⟨?_, ?_, ?_, h.positive⟩
    · intro other
      have hcov := h.covered other
      refine Int.le_trans hcov ?_
      change _ ≤ unpersistedOf _ other
      rw [hunpersisted]
      split <;> omega
    · intro other
      have hbal := h.balance other
      change s.ledger.written other + unpersistedOf _ other =
        Function.update s.ledger.returned taskId _ other + s.inFlight other
      rw [hunpersisted]
      refine Eq.trans ?_ (congrArg (· + s.inFlight other) (hreturned other).symm)
      omega
    · intro other
      have hsm := h.small other
      change unpersistedOf _ other ≤ _
      rw [hunpersisted]
      split
      · next heq =>
        rw [heq, hown]
        exact hbelow
      · omega

private theorem conserved_unpersistedUploads {s : SeedingSystem} (h : s.Conserved)
    (hdistinct : s.manager.Distinct) (rows : List String) :
    (s.unpersistedUploads rows).Conserved := by
  have hflight : ∀ taskId, (s.unpersistedUploads rows).inFlight taskId = s.inFlight taskId := by
    intro taskId
    simp [inFlight, unpersistedUploads, persistInFlight]
  refine ⟨?_, ?_, h.small, ?_⟩
  · intro taskId
    rw [hflight]
    exact h.covered taskId
  · intro taskId
    rw [hflight]
    exact h.balance taskId
  · intro p hp item hitem
    rcases List.mem_append.mp hp with hp | hp
    · exact h.positive p hp item hitem
    · rw [List.mem_singleton] at hp
      subst hp
      obtain ⟨row, hrow, rfl⟩ := List.mem_map.mp (List.mem_filter.mp hitem).1
      obtain ⟨hmem, hne⟩ := List.mem_filter.mp hrow
      have hown := unpersistedOf_of_mem (List.nodup_append.mp hdistinct).1 hmem
      have hzero := h.unpersisted_nonneg row.1
      rw [unpersisted, hown] at hzero
      have hne := of_decide_eq_true hne
      dsimp only
      omega

private theorem conserved_writeUploads {s : SeedingSystem} (h : s.Conserved) {persist : Nat}
    (hacc : s.Accounted (.writeUploads persist)) : (s.writeUploads persist).Conserved := by
  unfold writeUploads
  split
  · next uploads hp =>
    have hwrite : ∀ taskId, bytesOf uploads taskId + s.inFlight taskId ≤ s.unpersisted taskId := by
      intro taskId
      by_cases hin : taskId ∈ uploads.map Prod.fst
      · obtain ⟨item, hitem, rfl⟩ := List.mem_map.mp hin
        exact hacc _ hp rfl item hitem
      · rw [bytesOf_of_notMem hin, Int.zero_add]
        exact h.covered taskId
    have hflight : ∀ taskId, (s.setPhase persist .written).inFlight taskId =
        s.inFlight taskId + bytesOf uploads taskId := by
      intro taskId
      have hmove := inFlight_setPhase hp .written taskId
      simpa [persistInFlight] using hmove
    refine ⟨?_, ?_, h.small, positive_setPhase h persist .written⟩
    · intro taskId
      change (s.setPhase persist .written).inFlight taskId ≤ s.unpersisted taskId
      rw [hflight, Int.add_comm]
      exact hwrite taskId
    · intro taskId
      have hbal := h.balance taskId
      change (uploads.foldl SeedingLedger.noteWritten s.ledger).written taskId +
        s.unpersisted taskId = _ + (s.setPhase persist .written).inFlight taskId
      have hreturned : ∀ (items : List (String × Int)) (l : SeedingLedger),
          (items.foldl SeedingLedger.noteWritten l).returned = l.returned := by
        intro items
        induction items with
        | nil => exact fun l ↦ rfl
        | cons item items ih => exact fun l ↦ ih (l.noteWritten item)
      rw [foldl_noteWritten, hflight, hreturned]
      omega
  · exact h

private theorem conserved_failUploads {s : SeedingSystem} (h : s.Conserved) (persist : Nat) :
    (s.failUploads persist).Conserved := by
  unfold failUploads
  split
  · next uploads hp =>
    have hflight : ∀ taskId, (s.setPhase persist .done).inFlight taskId = s.inFlight taskId := by
      intro taskId
      have hmove := inFlight_setPhase hp .done taskId
      simpa [persistInFlight] using hmove
    refine ⟨?_, ?_, h.small, positive_setPhase h persist .done⟩
    · intro taskId
      rw [hflight]
      exact h.covered taskId
    · intro taskId
      rw [hflight]
      exact h.balance taskId
  · exact h

private theorem conserved_markUploadsPersisted {s : SeedingSystem} (h : s.Conserved)
    (persist : Nat) : (s.markUploadsPersisted persist).Conserved := by
  unfold markUploadsPersisted
  split
  · next uploads hp =>
    have hflight : ∀ taskId, (s.setPhase persist .done).inFlight taskId + bytesOf uploads taskId =
        s.inFlight taskId := by
      intro taskId
      have hmove := inFlight_setPhase hp .done taskId
      simpa [persistInFlight] using hmove
    have hpositive := positive_setPhase h persist .done
    have hrest : ∀ taskId, 0 ≤ (s.setPhase persist .done).inFlight taskId :=
      sum_nonneg hpositive
    have hcovered : ∀ taskId, bytesOf uploads taskId ≤ s.unpersisted taskId := by
      intro taskId
      have hcov := h.covered taskId
      have hmove := hflight taskId
      have hzero := hrest taskId
      omega
    have hmark : ∀ taskId, unpersistedOf (s.manager.markUploadsPersisted uploads).active taskId =
        s.unpersisted taskId - bytesOf uploads taskId :=
      unpersistedOf_mark (h.positive _ (List.mem_of_getElem? hp)) hcovered h.small
    refine ⟨?_, ?_, ?_, hpositive⟩
    · intro taskId
      have hcov := h.covered taskId
      have hmove := hflight taskId
      change (s.setPhase persist .done).inFlight taskId ≤ unpersistedOf _ taskId
      rw [hmark]
      omega
    · intro taskId
      have hbal := h.balance taskId
      have hmove := hflight taskId
      change s.ledger.written taskId + unpersistedOf _ taskId =
        s.ledger.returned taskId + (s.setPhase persist .done).inFlight taskId
      rw [hmark]
      omega
    · intro taskId
      have hsm := h.small taskId
      have hzero : 0 ≤ bytesOf uploads taskId :=
        bytesOf_nonneg (h.positive _ (List.mem_of_getElem? hp)) taskId
      change unpersistedOf _ taskId ≤ _
      rw [hmark]
      omega
  · exact h

private theorem conserved_unregister {s : SeedingSystem} (h : s.Conserved) {taskId : String}
    (hacc : s.Accounted (.unregister taskId)) : (s.unregister taskId).Conserved := by
  unfold unregister
  rw [noteStint_eq]
  rcases unregister_cases s.manager s.now taskId with
    ⟨entry, -, heq⟩ | ⟨-, seed, -, heq⟩ | ⟨-, heq⟩
  · rw [heq]
    refine h.of_same ?_ rfl rfl rfl
    apply unpersistedOf_filter
    intro other hin
    obtain rfl := List.mem_singleton.mp hin
    exact hacc
  · rw [heq]
    exact h.of_same (fun _ ↦ rfl) rfl rfl rfl
  · rw [heq]
    exact h.of_same (fun _ ↦ rfl) rfl rfl rfl

private theorem unpersistedOf_perm {rows rows' : List (String × SeedingEntry)}
    (hnodup : (rows.map Prod.fst).Nodup) (hperm : rows'.Perm rows) (taskId : String) :
    unpersistedOf rows' taskId = unpersistedOf rows taskId := by
  have hnodup' : (rows'.map Prod.fst).Nodup := (hperm.map Prod.fst).nodup_iff.mpr hnodup
  cases hfound : lastRow? Prod.fst taskId rows with
  | none =>
    have hfound' : lastRow? Prod.fst taskId rows' = none := by
      rw [lastRow?_eq_none_iff] at hfound ⊢
      exact fun row hrow ↦ hfound row (hperm.mem_iff.mp hrow)
    rw [unpersistedOf, hfound', unpersistedOf, hfound]
  | some row =>
    obtain ⟨hmem, rfl⟩ := lastRow?_eq_some hfound
    rw [unpersistedOf_of_mem hnodup hmem, unpersistedOf_of_mem hnodup' (hperm.mem_iff.mpr hmem)]

/-- Steps that account for their bytes conserve them. -/
theorem conserved_step (s : SeedingSystem) (op : Op) (hdistinct : s.manager.Distinct)
    (h : s.Conserved) (hacc : s.Accounted op) : (s.step op).Conserved := by
  cases op with
  | register taskId uploaded counter base =>
    have hrows := unpersisted_register s.manager s.now taskId uploaded counter base
    simp only [step, register]
    cases hout : (s.manager.register s.now taskId uploaded counter base).2 with
    | alreadyPresent => exact h
    | queued => exact h.of_same hrows rfl rfl rfl
    | activated => exact h.of_same hrows rfl rfl rfl
  | reconcile ticks => exact conserved_reconcile h hdistinct hacc
  | applyUploadSnapshot taskId counter speed => exact conserved_applyUploadSnapshot h hacc
  | unpersistedUploads rows => exact conserved_unpersistedUploads h hdistinct rows
  | writeUploads persist => exact conserved_writeUploads h hacc
  | failUploads persist => exact conserved_failUploads h persist
  | markUploadsPersisted persist => exact conserved_markUploadsPersisted h persist
  | unregister taskId => exact conserved_unregister h hacc
  | rehash active =>
    simp only [step]
    split
    · next hperm =>
      exact h.of_same (unpersistedOf_perm (List.nodup_append.mp hdistinct).1 hperm) rfl rfl rfl
    · exact h
  | setCap cap => exact h.of_same (fun _ ↦ rfl) rfl rfl rfl
  | clock nanos => exact h.of_same (fun _ ↦ rfl) rfl rfl rfl

end Conservation

end Engine.SeedingSystem
