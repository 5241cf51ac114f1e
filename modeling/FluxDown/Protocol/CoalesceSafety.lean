import FluxDown.Protocol.CoalesceMerge

/-!
# Merging frames is transparent

Library `Protocol`. The frames taken out of the queue and those still in it represent the
stream that was queued: from every moment of the stream they lead a projection to where the
stream leads it. The marks of the queue say of the latest frame of each entity what came after
it, which is what makes it safe to move that frame to a later place.
-/

namespace Protocol

open Base Engine.QueueOrder

variable {P : Payloads}

/-! ## Marks of the queue -/

/-- The marks cover the frames that wait. -/
structure FrameQueue.Tracked (queue : FrameQueue P) : Prop where
  /-- Waiting frames are counted. -/
  live_eq : queue.live = (queue.slots.filterMap id).length
  /-- The marked slot of an entity holds a frame of it, if it still waits. -/
  key_slot : ∀ key i frame, queue.keys key = some i → queue.head ≤ i →
    queue.slots[i - queue.head]? = some (some frame) → touch frame.event = .keyed key
  /-- Marked slots were used. -/
  key_lt : ∀ key i, queue.keys key = some i → i < queue.head + queue.slots.length
  /-- Frames that touch everything lie before the barrier. -/
  all_lt : ∀ k frame, queue.slots[k]? = some (some frame) → touch frame.event = .all →
    queue.head + k < queue.barrier
  /-- No frame of an entity after the barrier lies after the marked slot. -/
  key_latest : ∀ k frame key, queue.slots[k]? = some (some frame) →
    touch frame.event = .keyed key →
    queue.head + k < queue.barrier ∨ ∃ i, queue.keys key = some i ∧ queue.head + k ≤ i
  /-- No frame that touches a task after the barrier lies after the marked slot. -/
  task_latest : ∀ k frame task, queue.slots[k]? = some (some frame) →
    task ∈ (touch frame.event).taskIds →
    queue.head + k < queue.barrier ∨ ∃ i, queue.touched task = some i ∧ queue.head + k ≤ i

namespace FrameQueue

private theorem tracked_new : (new : FrameQueue P).Tracked where
  live_eq := rfl
  key_slot _ _ _ h := by cases h
  key_lt _ _ h := by cases h
  all_lt _ _ h := by cases h
  key_latest _ _ _ h := by cases h
  task_latest _ _ _ h := by cases h

private theorem mergeable_spec {queue : FrameQueue P} {key : Key} {earlier : Nat}
    (h : queue.mergeable key = some earlier) :
    queue.keys key = some earlier ∧ queue.head ≤ earlier ∧ queue.barrier ≤ earlier ∧
      ∀ task, key.task = some task → queue.touched task = some earlier := by
  unfold mergeable at h
  split at h
  · cases h
  · next i hkey =>
    split at h
    · cases h
    · next hlate =>
      rw [not_or, Nat.not_lt, Nat.not_lt] at hlate
      split at h
      · next task htask =>
        split at h
        · cases h
        · next htouched =>
          rw [Option.some.injEq] at h
          subst h
          refine ⟨hkey, hlate.1, hlate.2, ?_⟩
          intro task' htask'
          rw [htask, Option.some.injEq] at htask'
          exact htask' ▸ not_not.mp htouched
      · next htask =>
        rw [Option.some.injEq] at h
        subst h
        refine ⟨hkey, hlate.1, hlate.2, ?_⟩
        intro task htask'
        rw [htask] at htask'
        cases htask'

/-- The slot a new event is merged with holds the latest frame of the entity, and the entity's
frame may be moved past every frame after it. -/
theorem Tracked.mergeWith {queue : FrameQueue P} (h : queue.Tracked) {key : Key}
    {event merged : ServiceEvent P} {slot : Nat}
    (hmerge : queue.mergeWith key event = some (slot, merged)) :
    ∃ before earlier between, queue.slots = before ++ some earlier :: between ∧
      before.length = slot ∧ touch earlier.event = .keyed key ∧
      merge earlier.event event = some merged ∧
      ∀ frame, some frame ∈ between → (touch frame.event).Passes key := by
  unfold FrameQueue.mergeWith at hmerge
  rw [Option.bind_eq_some_iff] at hmerge
  obtain ⟨i, hmergeable, hmerge⟩ := hmerge
  rw [Option.bind_eq_some_iff] at hmerge
  obtain ⟨earlier, hslot, hmerge⟩ := hmerge
  rw [Option.map_eq_some_iff] at hmerge
  obtain ⟨event', hevent, hpair⟩ := hmerge
  rw [Prod.mk.injEq] at hpair
  obtain ⟨rfl, rfl⟩ := hpair
  obtain ⟨hkey, hhead, hbarrier, htouched⟩ := mergeable_spec hmergeable
  have hat : queue.slots[i - queue.head]? = some (some earlier) := by
    rw [Option.join_eq_some_iff] at hslot
    exact hslot
  have hlt : i - queue.head < queue.slots.length := List.getElem?_eq_some_iff.mp hat |>.1
  have hsplit : queue.slots = queue.slots.take (i - queue.head) ++
      some earlier :: queue.slots.drop (i - queue.head + 1) := by
    have hget : queue.slots[i - queue.head] = some earlier :=
      (List.getElem?_eq_some_iff.mp hat).2
    rw [← hget, List.getElem_cons_drop, List.take_append_drop]
  refine ⟨queue.slots.take (i - queue.head), earlier, queue.slots.drop (i - queue.head + 1), hsplit,
    List.length_take_of_le (Nat.le_of_lt hlt), h.key_slot key i earlier hkey hhead hat, hevent, ?_⟩
  intro frame hframe
  obtain ⟨k, hk⟩ := List.mem_iff_getElem?.mp hframe
  rw [List.getElem?_drop] at hk
  constructor
  · intro hall
    have := h.all_lt _ frame hk hall
    omega
  · intro hsame
    cases h.key_latest _ frame key hk hsame with
    | inl hlt => omega
    | inr hlater =>
      obtain ⟨j, hj, hle⟩ := hlater
      rw [hkey, Option.some.injEq] at hj
      omega
  · intro task htask hmem
    cases h.task_latest _ frame task hk hmem with
    | inl hlt => omega
    | inr hlater =>
      obtain ⟨j, hj, hle⟩ := hlater
      rw [htouched task htask, Option.some.injEq] at hj
      omega

/-- Marks that cover the frames that wait cover them beside a frame put at the end, if they say
of it what it touches. -/
theorem tracked_enqueue {queue : FrameQueue P} (h : queue.Tracked) {marked : FrameQueue P}
    {frame : EventFrame P} (hhead : marked.head = queue.head)
    (hlength : marked.slots.length = queue.slots.length)
    (hlive : marked.live = (marked.slots.filterMap id).length)
    (hold : ∀ {k : Nat} {f : EventFrame P}, marked.slots[k]? = some (some f) →
      queue.slots[k]? = some (some f))
    (hbarrier : queue.barrier ≤ marked.barrier ∨ queue.next < marked.barrier)
    (hkeys : ∀ key, marked.keys key = queue.keys key ∨
      marked.keys key = none ∧ queue.next < marked.barrier ∨
      marked.keys key = some queue.next ∧ touch frame.event = .keyed key)
    (htouched : ∀ task, marked.touched task = queue.touched task ∨
      queue.next < marked.barrier ∨ marked.touched task = some queue.next)
    (hall : touch frame.event = .all → queue.next < marked.barrier)
    (hkey : ∀ key, touch frame.event = .keyed key → marked.keys key = some queue.next)
    (htask : ∀ task, task ∈ (touch frame.event).taskIds → marked.touched task = some queue.next) :
    (marked.enqueue frame).Tracked := by
  have hnext : queue.next = queue.head + queue.slots.length := rfl
  have hget : ∀ {k : Nat} {f : EventFrame P},
      (marked.slots ++ [some frame])[k]? = some (some f) →
      queue.slots[k]? = some (some f) ∧ k < queue.slots.length ∨
        k = queue.slots.length ∧ f = frame := by
    intro k f h
    rw [List.getElem?_append] at h
    split at h
    · exact .inl ⟨hold h, by omega⟩
    · next hge =>
      rw [List.getElem?_singleton] at h
      split at h
      · next hzero => exact .inr ⟨by omega, (Option.some.inj (Option.some.inj h)).symm⟩
      · cases h
  -- A mark that covered a waiting frame still does: it is kept, moved to the end, or the
  -- barrier is past the frame.
  have hcover : ∀ {k : Nat} {mark : Option Nat}, k < queue.slots.length →
      (queue.head + k < queue.barrier ∨ ∃ i, mark = some i ∧ queue.head + k ≤ i) →
      ∀ {mark' : Option Nat},
      mark' = mark ∨ queue.next < marked.barrier ∨ mark' = some queue.next →
      queue.head + k < marked.barrier ∨ ∃ i, mark' = some i ∧ queue.head + k ≤ i := by
    intro k mark hk hcovered mark' hmark
    rcases hbarrier with hbarrier | hbarrier
    · rcases hmark with rfl | hpast | rfl
      · exact hcovered.imp_left (by omega)
      · exact .inl (by omega)
      · exact .inr ⟨_, rfl, by omega⟩
    · exact .inl (by omega)
  constructor
  · change marked.live + 1 = ((marked.slots ++ [some frame]).filterMap id).length
    rw [List.filterMap_append, List.length_append, hlive]
    rfl
  · intro key i f hi hle hf
    change marked.keys key = some i at hi
    have hle : marked.head ≤ i := hle
    cases hget hf with
    | inl hfound =>
      rcases hkeys key with hsame | ⟨hnone, -⟩ | ⟨hlast, -⟩
      · change queue.slots[i - marked.head]? = _ ∧ _ at hfound
        rw [hhead] at hfound hle
        exact h.key_slot key i f (hsame ▸ hi) hle hfound.1
      · rw [hnone] at hi
        cases hi
      · rw [hlast, Option.some.injEq] at hi
        have := hfound.2
        change i - marked.head < _ at this
        omega
    | inr hnew =>
      obtain ⟨hlast, rfl⟩ := hnew
      change i - marked.head = queue.slots.length at hlast
      rcases hkeys key with hsame | ⟨hnone, -⟩ | ⟨-, htouch⟩
      · have := h.key_lt key i (hsame ▸ hi)
        omega
      · rw [hnone] at hi
        cases hi
      · exact htouch
  · intro key i hi
    change marked.keys key = some i at hi
    change i < marked.head + (marked.slots ++ [some frame]).length
    rw [List.length_append, List.length_singleton]
    rcases hkeys key with hsame | ⟨hnone, -⟩ | ⟨hlast, -⟩
    · have := h.key_lt key i (hsame ▸ hi)
      omega
    · rw [hnone] at hi
      cases hi
    · rw [hlast, Option.some.injEq] at hi
      omega
  · intro k f hf htouch
    change marked.head + k < marked.barrier
    cases hget hf with
    | inl hfound =>
      have := h.all_lt k f hfound.1 htouch
      have := hfound.2
      omega
    | inr hnew =>
      obtain ⟨rfl, rfl⟩ := hnew
      have := hall htouch
      omega
  · intro k f key hf htouch
    change marked.head + k < marked.barrier ∨
      ∃ i, marked.keys key = some i ∧ marked.head + k ≤ i
    rw [hhead]
    cases hget hf with
    | inl hfound =>
      apply hcover hfound.2 (h.key_latest k f key hfound.1 htouch)
      rcases hkeys key with hsame | ⟨-, hpast⟩ | ⟨hlast, -⟩
      · exact .inl hsame
      · exact .inr (.inl hpast)
      · exact .inr (.inr hlast)
    | inr hnew =>
      obtain ⟨rfl, rfl⟩ := hnew
      exact .inr ⟨_, hkey key htouch, Nat.le_refl _⟩
  · intro k f task hf htouch
    change marked.head + k < marked.barrier ∨
      ∃ i, marked.touched task = some i ∧ marked.head + k ≤ i
    rw [hhead]
    cases hget hf with
    | inl hfound =>
      exact hcover hfound.2 (h.task_latest k f task hfound.1 htouch) (htouched task)
    | inr hnew =>
      obtain ⟨rfl, rfl⟩ := hnew
      exact .inr ⟨_, htask task htouch, Nat.le_refl _⟩

/-- Merged frames leave their slot empty. -/
theorem getElem?_set_none {slots : List (Option (EventFrame P))} {slot k : Nat}
    {frame : EventFrame P} (h : (slots.set slot none)[k]? = some (some frame)) :
    slots[k]? = some (some frame) := by
  rw [List.getElem?_set] at h
  split at h
  · split at h <;> cases h
  · exact h

private theorem tracked_begin {queue : FrameQueue P} (h : queue.Tracked) (frame : EventFrame P) :
    (queue.begin frame).Tracked :=
  ⟨h.live_eq, h.key_slot, h.key_lt, h.all_lt, h.key_latest, h.task_latest⟩

private theorem markKey_keys (queue : FrameQueue P) (key other : Key) :
    (queue.markKey key).keys other = if other = key then some queue.next else queue.keys other :=
  Function.update_apply ..

private theorem push_of_none {queue : FrameQueue P} {frame : EventFrame P}
    (h : touch frame.event = .none) : queue.push frame = (queue.begin frame).enqueue frame := by
  rw [FrameQueue.push, h]

private theorem push_of_all {queue : FrameQueue P} {frame : EventFrame P}
    (h : touch frame.event = .all) :
    queue.push frame = (queue.begin frame).markAll.enqueue frame := by
  rw [FrameQueue.push, h]

private theorem push_of_tasks {queue : FrameQueue P} {frame : EventFrame P} {taskIds : List String}
    (h : touch frame.event = .tasks taskIds) :
    queue.push frame = ((queue.begin frame).markTasks taskIds).enqueue frame := by
  rw [FrameQueue.push, h]

/-- A frame that merges with none is queued. -/
theorem push_of_apart {queue : FrameQueue P} {frame : EventFrame P} {key : Key}
    (h : touch frame.event = .keyed key)
    (hmerge : (queue.begin frame).mergeWith key frame.event = none) :
    queue.push frame = ((queue.begin frame).markKey key).enqueue frame := by
  rw [FrameQueue.push, h]
  simp only [hmerge]

/-- A frame that merges takes the place of the other. -/
theorem push_of_merged {queue : FrameQueue P} {frame : EventFrame P} {key : Key} {slot : Nat}
    {event : ServiceEvent P} (h : touch frame.event = .keyed key)
    (hmerge : (queue.begin frame).mergeWith key frame.event = some (slot, event)) :
    queue.push frame =
      { (queue.begin frame).markKey key with
        slots := queue.slots.set slot none
        live := queue.live - 1 }.enqueue { frame with event := event } := by
  rw [FrameQueue.push, h]
  simp only [hmerge]
  rfl

private theorem markKey_cases {queue : FrameQueue P} {frame : EventFrame P} {key : Key}
    (h : touch frame.event = .keyed key) (other : Key) :
    (queue.markKey key).keys other = queue.keys other ∨
      (queue.markKey key).keys other = none ∧ queue.next < queue.barrier ∨
      (queue.markKey key).keys other = some queue.next ∧ touch frame.event = .keyed other := by
  rw [markKey_keys]
  by_cases hsame : other = key
  · exact .inr (.inr ⟨if_pos hsame, hsame ▸ h⟩)
  · exact .inl (if_neg hsame)

private theorem markKey_touched (queue : FrameQueue P) (key : Key) (task : String) :
    (queue.markKey key).touched task =
      if key.task = some task then some queue.next else queue.touched task := rfl

private theorem filterMap_set_none {slots : List (Option (EventFrame P))}
    {before between : List (Option (EventFrame P))} {earlier : EventFrame P}
    (h : slots = before ++ some earlier :: between) :
    ((slots.set before.length none).filterMap id).length = (slots.filterMap id).length - 1 := by
  rw [h, List.set_append_right _ _ (Nat.le_refl _), Nat.sub_self, List.set_cons_zero,
    List.filterMap_append, List.filterMap_append, List.length_append, List.length_append]
  simp

/-- A push keeps track of the frames. -/
theorem Tracked.push {queue : FrameQueue P} (h : queue.Tracked) {frame : EventFrame P}
    (hreload : frame.event.ReloadsSome) : (queue.push frame).Tracked := by
  have hbegin := tracked_begin h frame
  cases htouch : touch frame.event with
  | none =>
    rw [push_of_none htouch]
    refine tracked_enqueue hbegin rfl rfl h.live_eq id (.inl (Nat.le_refl _)) (fun _ ↦ .inl rfl)
      (fun _ ↦ .inl rfl) ?_ ?_ ?_
    · simp [htouch]
    · simp [htouch]
    · simp [htouch, Touch.taskIds]
  | all =>
    rw [push_of_all htouch]
    have hnext : (queue.begin frame).next < (queue.begin frame).markAll.barrier :=
      Nat.lt_succ_self _
    refine tracked_enqueue hbegin rfl rfl h.live_eq id (.inr hnext)
      (fun _ ↦ .inr (.inl ⟨rfl, hnext⟩)) (fun _ ↦ .inr (.inl hnext)) (fun _ ↦ hnext) ?_ ?_
    · simp [htouch]
    · simp [htouch, Touch.taskIds]
  | tasks taskIds =>
    rw [push_of_tasks htouch]
    refine tracked_enqueue hbegin rfl rfl h.live_eq id (.inl (Nat.le_refl _)) (fun _ ↦ .inl rfl)
      ?_ ?_ ?_ ?_
    · intro task
      by_cases hmem : task ∈ taskIds
      · exact .inr (.inr (if_pos hmem))
      · exact .inl (if_neg hmem)
    · simp [htouch]
    · simp [htouch]
    · intro task htask
      rw [htouch] at htask
      exact if_pos htask
  | keyed key =>
    have htouched : ∀ task, ((queue.begin frame).markKey key).touched task =
        (queue.begin frame).touched task ∨
        (queue.begin frame).next < ((queue.begin frame).markKey key).barrier ∨
        ((queue.begin frame).markKey key).touched task = some (queue.begin frame).next := by
      intro task
      rw [markKey_touched]
      by_cases hkey : key.task = some task
      · exact .inr (.inr (if_pos hkey))
      · exact .inl (if_neg hkey)
    have htasks : ∀ task, task ∈ (Touch.keyed key).taskIds →
        ((queue.begin frame).markKey key).touched task = some (queue.begin frame).next := by
      intro task htask
      rw [Touch.taskIds, Option.mem_toList] at htask
      exact if_pos htask
    have hkeys : ∀ other, Touch.keyed key = Touch.keyed other →
        ((queue.begin frame).markKey key).keys other = some (queue.begin frame).next := by
      intro other hsame
      rw [Touch.keyed.injEq] at hsame
      rw [markKey_keys, if_pos hsame.symm]
    cases hmerge : (queue.begin frame).mergeWith key frame.event with
    | none =>
      rw [push_of_apart htouch hmerge]
      refine tracked_enqueue hbegin rfl rfl h.live_eq id (.inl (Nat.le_refl _))
        (markKey_cases htouch) htouched ?_ ?_ ?_
      · simp [htouch]
      · rw [htouch]
        exact hkeys
      · rw [htouch]
        exact htasks
    | some merged =>
      obtain ⟨slot, event⟩ := merged
      obtain ⟨before, earlier, between, hslots, rfl, hearlier, hevent, -⟩ := hbegin.mergeWith hmerge
      have hmerged : touch event = .keyed key := (merge_spec hevent hearlier htouch hreload).1
      rw [push_of_merged htouch hmerge]
      refine tracked_enqueue hbegin rfl (List.length_set ..) ?_ getElem?_set_none
        (.inl (Nat.le_refl _)) (markKey_cases hmerged)
        htouched ?_ ?_ ?_
      · change queue.live - 1 = _
        rw [h.live_eq]
        exact (filterMap_set_none hslots).symm
      · simp [hmerged]
      · rw [hmerged]
        exact hkeys
      · rw [hmerged]
        exact htasks

/-! ## Taking frames out -/

private theorem split_of_dropWhile (slots : List (Option (EventFrame P))) :
    slots.dropWhile Option.isNone = [] ∧ slots.filterMap id = [] ∨
      ∃ skipped frame rest, slots = skipped ++ some frame :: rest ∧
        slots.dropWhile Option.isNone = some frame :: rest ∧ skipped.filterMap id = [] := by
  induction slots with
  | nil => exact .inl ⟨rfl, rfl⟩
  | cons slot slots ih =>
    cases slot with
    | some frame => exact .inr ⟨[], frame, slots, rfl, rfl, rfl⟩
    | none =>
      cases ih with
      | inl h => exact .inl h
      | inr h =>
        obtain ⟨skipped, frame, rest, hslots, hdrop, hskipped⟩ := h
        exact .inr ⟨none :: skipped, frame, rest, by rw [hslots]; rfl, hdrop, hskipped⟩

private theorem pop_of_nil {queue : FrameQueue P}
    (h : queue.slots.dropWhile Option.isNone = []) :
    queue.pop = (none, { queue with slots := [], head := queue.head + queue.slots.length }) := by
  rw [pop, h]

private theorem pop_of_cons {queue : FrameQueue P} {frame : EventFrame P}
    {rest : List (Option (EventFrame P))}
    (h : queue.slots.dropWhile Option.isNone = some frame :: rest) :
    queue.pop = (some (queue.outgoing frame),
      if (queue.taken frame rest).live = 0 then (queue.taken frame rest).cleared
      else queue.taken frame rest) := by
  rw [pop, h]

/-- The frames that wait behind one that is taken out. -/
theorem live_taken {queue : FrameQueue P} (h : queue.Tracked) {frame : EventFrame P}
    {skipped rest : List (Option (EventFrame P))} (hslots : queue.slots = skipped ++ some frame :: rest)
    (hskipped : skipped.filterMap id = []) :
    (queue.taken frame rest).live = (rest.filterMap id).length := by
  change queue.live - 1 = _
  rw [h.live_eq, hslots, List.filterMap_append, hskipped]
  simp

/-- What taking a frame out does: nothing waits, or the first frame that waits leaves with the
slots before it, and with the slots after it where none of them holds a frame. -/
theorem pop_cases {queue : FrameQueue P} (h : queue.Tracked) :
    (queue.pop.1 = none ∧ queue.slots.filterMap id = [] ∧ queue.pop.2.slots = [] ∧
        queue.pop.2.lastSent = queue.lastSent ∧ queue.pop.2.firstFrom = queue.firstFrom) ∨
      ∃ skipped frame gone rest, queue.slots = skipped ++ some frame :: (gone ++ rest) ∧
        skipped.filterMap id = [] ∧ gone.filterMap id = [] ∧
        queue.pop.1 = some (queue.outgoing frame) ∧ queue.pop.2.slots = rest ∧
        queue.pop.2.lastSent = some frame.sequence ∧ queue.pop.2.firstFrom = queue.firstFrom := by
  cases split_of_dropWhile queue.slots with
  | inl hnil =>
    rw [pop_of_nil hnil.1]
    exact .inl ⟨rfl, hnil.2, rfl, rfl, rfl⟩
  | inr hcons =>
    obtain ⟨skipped, frame, rest, hslots, hdrop, hskipped⟩ := hcons
    have hlive := live_taken h hslots hskipped
    rw [pop_of_cons hdrop]
    by_cases hlast : (queue.taken frame rest).live = 0
    · have hgone : rest.filterMap id = [] := List.eq_nil_of_length_eq_zero (hlive ▸ hlast)
      refine .inr ⟨skipped, frame, rest, [], by rw [List.append_nil, hslots], hskipped, hgone, rfl, ?_⟩
      rw [if_pos hlast]
      exact ⟨rfl, rfl, rfl⟩
    · refine .inr ⟨skipped, frame, [], rest, hslots, hskipped, rfl, rfl, ?_⟩
      rw [if_neg hlast]
      exact ⟨rfl, rfl, rfl⟩

private theorem tracked_cleared {queue : FrameQueue P} (h : queue.live = 0) :
    queue.cleared.Tracked where
  live_eq := h
  key_slot _ _ _ hkey := by cases hkey
  key_lt _ _ hkey := by cases hkey
  all_lt _ _ hslot := by cases hslot
  key_latest _ _ _ hslot := by cases hslot
  task_latest _ _ _ hslot := by cases hslot

/-- Dropping slots from the front keeps what the marks say of the others. -/
theorem tracked_of_drop {queue after : FrameQueue P} (h : queue.Tracked) {n : Nat}
    (hn : n ≤ queue.slots.length) (hslots : after.slots = queue.slots.drop n)
    (hhead : after.head = queue.head + n) (hkeys : after.keys = queue.keys)
    (htouched : after.touched = queue.touched) (hbarrier : after.barrier = queue.barrier)
    (hlive : after.live = (after.slots.filterMap id).length) : after.Tracked := by
  have hget : ∀ {k : Nat} {frame : EventFrame P}, after.slots[k]? = some (some frame) →
      queue.slots[n + k]? = some (some frame) := by
    intro k frame hk
    rwa [hslots, List.getElem?_drop] at hk
  constructor
  · exact hlive
  · intro key i frame hi hle hslot
    rw [hkeys] at hi
    rw [hhead] at hle hslot
    have hat := hget hslot
    rw [show n + (i - (queue.head + n)) = i - queue.head by omega] at hat
    exact h.key_slot key i frame hi (by omega) hat
  · intro key i hi
    rw [hkeys] at hi
    rw [hhead, hslots, List.length_drop]
    have := h.key_lt key i hi
    omega
  · intro k frame hk htouch
    rw [hhead, hbarrier]
    have := h.all_lt _ frame (hget hk) htouch
    omega
  · intro k frame key hk htouch
    rw [hhead, hbarrier, hkeys, Nat.add_assoc]
    exact h.key_latest _ frame key (hget hk) htouch
  · intro k frame task hk htask
    rw [hhead, hbarrier, htouched, Nat.add_assoc]
    exact h.task_latest _ frame task (hget hk) htask

private theorem Tracked.pop {queue : FrameQueue P} (h : queue.Tracked) : queue.pop.2.Tracked := by
  cases split_of_dropWhile queue.slots with
  | inl hnil =>
    rw [pop_of_nil hnil.1]
    refine tracked_of_drop h (Nat.le_refl _) (List.drop_length).symm rfl rfl rfl rfl ?_
    change queue.live = 0
    rw [h.live_eq, hnil.2]
    rfl
  | inr hcons =>
    obtain ⟨skipped, frame, rest, hslots, hdrop, hskipped⟩ := hcons
    rw [pop_of_cons hdrop]
    by_cases hlast : (queue.taken frame rest).live = 0
    · simp only [if_pos hlast]
      exact tracked_cleared hlast
    · simp only [if_neg hlast]
      have hlength : queue.slots.length = skipped.length + (1 + rest.length) := by
        rw [hslots, List.length_append, List.length_cons]
        omega
      have hrest : rest = queue.slots.drop (queue.slots.length - rest.length) := by
        rw [hslots]
        rw [List.length_append, List.length_cons,
          show skipped.length + (rest.length + 1) - rest.length = skipped.length + 1 by omega,
          List.drop_length_add_append]
        rfl
      exact tracked_of_drop h (by omega) hrest rfl rfl rfl rfl (live_taken h hslots hskipped)

end FrameQueue

/-- What queueing a frame does to the slots: it is put at the end, or merged with the latest frame
of its entity past frames that leave the entity alone. -/
theorem push_cases {queue : FrameQueue P} (h : queue.Tracked) (frame : EventFrame P) :
    (queue.push frame).slots = queue.slots ++ [some frame] ∨
      ∃ key before earlier between merged, queue.slots = before ++ some earlier :: between ∧
        (queue.push frame).slots =
          before ++ none :: between ++ [some { frame with event := merged }] ∧
        touch earlier.event = .keyed key ∧ touch frame.event = .keyed key ∧
        merge earlier.event frame.event = some merged ∧
        ∀ other, some other ∈ between → (touch other.event).Passes key := by
  cases htouch : touch frame.event with
  | none => exact .inl (by rw [FrameQueue.push_of_none htouch]; rfl)
  | all => exact .inl (by rw [FrameQueue.push_of_all htouch]; rfl)
  | tasks taskIds => exact .inl (by rw [FrameQueue.push_of_tasks htouch]; rfl)
  | keyed key =>
    cases hmerge : (queue.begin frame).mergeWith key frame.event with
    | none => exact .inl (by rw [FrameQueue.push_of_apart htouch hmerge]; rfl)
    | some merged =>
      obtain ⟨slot, event⟩ := merged
      obtain ⟨before, earlier, between, hslots, rfl, hearlier, hevent, hbetween⟩ :=
        (FrameQueue.tracked_begin h frame).mergeWith hmerge
      refine .inr ⟨key, before, earlier, between, event, hslots, ?_, hearlier, rfl, hevent, hbetween⟩
      rw [FrameQueue.push_of_merged htouch hmerge]
      have hslots : queue.slots = before ++ some earlier :: between := hslots
      change queue.slots.set before.length none ++ [some { frame with event := event }] = _
      rw [hslots, List.set_append_right _ _ (Nat.le_refl _), Nat.sub_self, List.set_cons_zero]

private theorem push_sent (queue : FrameQueue P) (frame : EventFrame P) :
    (queue.push frame).lastSent = queue.lastSent ∧
      (queue.push frame).firstFrom = (queue.begin frame).firstFrom := by
  unfold FrameQueue.push
  simp only
  split
  · exact ⟨rfl, rfl⟩
  · exact ⟨rfl, rfl⟩
  · exact ⟨rfl, rfl⟩
  · split <;> exact ⟨rfl, rfl⟩

/-! ## States that lack a frame -/

/-- `y` has the event and `x` lacks it; where shares were replaced since, progress of a share
session makes no difference any more. -/
def Lags (event : ServiceEvent P) (x y : AgentSnapshot P) : Prop :=
  QueueInOrder x ∧
    (y = applyServiceEvent x event ∨ (∃ progress, event = .agent (.shareProgress progress)) ∧ y = x)

/-- A service event that leaves the queue table alone. -/
theorem queue_applyServiceEvent {event : ServiceEvent P} (hall : touch event ≠ .all)
    (hqueue : touch event ≠ .keyed .queue) (snapshot : AgentSnapshot P) :
    (applyServiceEvent snapshot event).daemon.queuePositions =
      snapshot.daemon.queuePositions := by
  cases hdaemon : event.daemonEvent with
  | some e =>
    rw [touch_daemon hdaemon] at hall hqueue
    rw [applyServiceEvent_daemon hdaemon]
    exact (queue_applyDaemonEvent hall hqueue snapshot.daemon).1
  | none =>
    cases event with
    | daemon e => cases hdaemon
    | agent e =>
      cases e with
      | daemon e => cases hdaemon
      | daemonSnapshotReplaced replacement => exact absurd rfl hall
      | daemonConnectionChanged connected => exact absurd rfl hall
      | sessionChanged session => cases session <;> rfl
      | _ => rfl

/-- A frame that leaves the entity alone keeps states that lack the event behind those that have
it. -/
theorem lags_pass {event other : ServiceEvent P} {key : Key}
    (hkey : touch event = .keyed key) (hpasses : (touch other).Passes key) {x y : AgentSnapshot P}
    (hlags : Lags event x y) (hvalid : QueueInOrder (applyServiceEvent y other)) :
    Lags event (applyServiceEvent x other) (applyServiceEvent y other) := by
  obtain ⟨horder, hcase⟩ := hlags
  rcases hcase with rfl | ⟨hshare, rfl⟩
  · rcases applyServiceEvent_pass hkey hpasses x with hcomm | ⟨hshare, hsame⟩
    · refine ⟨?_, .inl hcomm⟩
      by_cases hqueue : key = .queue
      · have hkept := queue_applyServiceEvent hpasses.not_all (hqueue ▸ hpasses.not_same) x
        rw [QueueInOrder, hkept]
        exact horder
      · have hkept := queue_applyServiceEvent (by rw [hkey]; exact Touch.noConfusion)
          (by rw [hkey]; exact fun h ↦ hqueue (Touch.keyed.inj h)) (applyServiceEvent x other)
        rw [QueueInOrder, hcomm, hkept] at hvalid
        exact hvalid
    · rw [hsame] at hvalid
      exact ⟨hvalid, .inr ⟨hshare, hsame⟩⟩
  · exact ⟨hvalid, .inr ⟨hshare, rfl⟩⟩

/-- Merging two frames past frames that leave their entity alone. -/
theorem merges_of_passes {old new merged : ServiceEvent P} {key : Key}
    (hmerge : merge old new = some merged) (hold : touch old = .keyed key)
    (hnew : touch new = .keyed key) (hreload : new.ReloadsSome)
    {between : List (Option (ServiceEvent P))}
    (hbetween : ∀ other, some other ∈ between → (touch other).Passes key) :
    Represents.Merges applyServiceEvent QueueInOrder old new merged between (Lags old) := by
  obtain ⟨-, hstands, hshare⟩ := merge_spec hmerge hold hnew hreload
  constructor
  · intro x hx _
    exact ⟨hx, .inl rfl⟩
  · intro other hother x y hlags hvalid
    exact lags_pass hold (hbetween other hother) hlags hvalid
  · intro x y hlags
    exact hlags.1
  · intro x y hlags hy hafter
    obtain ⟨hx, hcase⟩ := hlags
    rcases hcase with rfl | ⟨hprogress, rfl⟩
    · have h := hstands x hx hy hafter
      exact ⟨h.both, h.again⟩
    · rw [hshare hprogress]
      exact ⟨rfl, rfl⟩

/-! ## The stream that is forwarded -/

/-- A contiguous stream of frames of one epoch, from the number after `n` on. -/
def Stream (epoch : String) (n : Nat) (frames : List (EventFrame P)) : Prop :=
  ∀ i frame, frames[i]? = some frame →
    frame.epoch = epoch ∧ frame.sequence = n + 1 + i ∧ frame.coversFrom = n + i

/-- Each frame covers the stream from the one before it. -/
def Linked (from' : Nat) : List (EventFrame P) → Prop
  | [] => True
  | frame :: frames => frame.coversFrom = from' ∧ Linked frame.sequence frames

private theorem linked_concat {frames : List (EventFrame P)} {frame : EventFrame P} {from' : Nat} :
    Linked from' (frames ++ [frame]) ↔ Linked from' frames ∧
      frame.coversFrom = (frames.getLast?.map EventFrame.sequence).getD from' := by
  induction frames generalizing from' with
  | nil => simp [Linked]
  | cons first frames ih =>
    rw [List.cons_append, Linked, Linked, ih, and_assoc]
    cases hlast : frames.getLast? with
    | none =>
      rw [List.getLast?_eq_none_iff] at hlast
      subst hlast
      rfl
    | some last => rw [List.getLast?_cons, hlast]; rfl

/-- Frames of an epoch carry the numbers of their places. -/
def Numbered (epoch : String) (n : Nat) (slots : List (Option (EventFrame P))) : Prop :=
  ∀ i frame, slots[i]? = some (some frame) → frame.epoch = epoch ∧ frame.sequence = n + 1 + i

private theorem numbered_cons {epoch : String} {n : Nat} {slot : Option (EventFrame P)}
    {slots : List (Option (EventFrame P))} (h : Numbered epoch n (slot :: slots)) :
    (∀ frame, slot = some frame → frame.epoch = epoch ∧ frame.sequence = n + 1) ∧
      Numbered epoch (n + 1) slots := by
  constructor
  · intro frame hframe
    exact h 0 frame (congrArg some hframe)
  · intro i frame hframe
    have hnumber := h (i + 1) frame hframe
    exact ⟨hnumber.1, by omega⟩

private theorem numbered_concat {epoch : String} {n : Nat} {slots : List (Option (EventFrame P))}
    {frame : EventFrame P} (h : Numbered epoch n slots) (hepoch : frame.epoch = epoch)
    (hsequence : frame.sequence = n + 1 + slots.length) :
    Numbered epoch n (slots ++ [some frame]) := by
  intro i other hother
  rw [List.getElem?_append] at hother
  split at hother
  · exact h i other hother
  · next hge =>
    rw [List.getElem?_singleton] at hother
    split at hother
    · next hzero =>
      rw [Option.some.injEq, Option.some.injEq] at hother
      subst hother
      exact ⟨hepoch, by omega⟩
    · cases hother

/-- A frame may leave its place, or one with the same number may take it. -/
theorem numbered_set {epoch : String} {n : Nat}
    {before between : List (Option (EventFrame P))} {frame : EventFrame P}
    {slot : Option (EventFrame P)} (h : Numbered epoch n (before ++ some frame :: between))
    (hslot : ∀ other, slot = some other →
      other.epoch = frame.epoch ∧ other.sequence = frame.sequence) :
    Numbered epoch n (before ++ slot :: between) := by
  intro i other hother
  have hi := h i
  rw [List.getElem?_append, List.getElem?_cons] at hother hi
  split at hother
  · next hlt =>
    rw [if_pos hlt] at hi
    exact hi other hother
  · next hge =>
    rw [if_neg hge] at hi
    split at hother
    · next hzero =>
      rw [if_pos hzero] at hi
      have hsame := hslot other (Option.some.inj hother)
      rw [hsame.1, hsame.2]
      exact hi frame rfl
    · next hne =>
      rw [if_neg hne] at hi
      exact hi other hother

/-- The frames sent and those that wait represent the stream queued so far. -/
structure Forwards (epoch : String) (n : Nat) (base : AgentSnapshot P)
    (history : List (EventFrame P)) (gone : List (Option (EventFrame P)))
    (forwarder : Forwarder P) : Prop where
  /-- The marks cover what waits. -/
  tracked : forwarder.queue.Tracked
  /-- What left the queue was sent. -/
  sent_eq : forwarder.sent = gone.filterMap id
  /-- The places represent the stream. -/
  represents : Represents applyServiceEvent QueueInOrder base (history.map EventFrame.event)
    ((gone ++ forwarder.queue.slots).map (Option.map EventFrame.event))
  /-- Each place has its number. -/
  numbered : Numbered epoch n (gone ++ forwarder.queue.slots)
  /-- Each frame sent covers the stream from the one sent before. -/
  linked : Linked n forwarder.sent
  /-- The queue knows the last frame sent. -/
  last_eq : forwarder.queue.lastSent = forwarder.sent.getLast?.map EventFrame.sequence
  /-- The queue knows where the stream starts. -/
  first_eq : history ≠ [] → forwarder.queue.firstFrom = some n
  /-- Before the stream starts nothing was sent. -/
  none_sent : history = [] → forwarder.queue.firstFrom = none

namespace Forwards

variable {epoch : String} {n : Nat} {base : AgentSnapshot P} {history : List (EventFrame P)}
  {gone : List (Option (EventFrame P))} {forwarder : Forwarder P}

private theorem new (h : QueueInOrder base) : Forwards epoch n base [] [] Forwarder.new where
  tracked := FrameQueue.tracked_new
  sent_eq := rfl
  represents := Represents.nil h
  numbered i frame hframe := by cases hframe
  linked := trivial
  last_eq := rfl
  first_eq h := absurd rfl h
  none_sent _ := rfl

private theorem length_eq (h : Forwards epoch n base history gone forwarder) :
    (gone ++ forwarder.queue.slots).length = history.length := by
  have hlength := h.represents.length_eq
  rwa [List.length_map, List.length_map] at hlength

/-- A frame that is queued takes the next place, and an earlier one of its entity may leave its
own. -/
theorem push (h : Forwards epoch n base history gone forwarder) {frame : EventFrame P}
    (hreload : frame.event.ReloadsSome) (hepoch : frame.epoch = epoch)
    (hsequence : frame.sequence = n + 1 + history.length)
    (hcovers : frame.coversFrom = n + history.length)
    (horder : QueueInOrder
      (run applyServiceEvent base ((history ++ [frame]).map EventFrame.event))) :
    Forwards epoch n base (history ++ [frame]) gone (forwarder.step (.push frame)) := by
  have hsent := push_sent forwarder.queue frame
  rw [List.map_append] at horder
  have hlength := h.length_eq
  constructor
  · exact h.tracked.push hreload
  · exact h.sent_eq
  · change Represents _ _ _ _ ((gone ++ (forwarder.queue.push frame).slots).map _)
    rw [List.map_append]
    rcases push_cases h.tracked frame with hslots | ⟨key, before, earlier, between, merged, hold,
      hslots, hearlier, hlater, hmerge, hbetween⟩
    · rw [hslots, ← List.append_assoc, List.map_append]
      exact h.represents.push horder
    · have hrep := h.represents
      rw [hold, ← List.append_assoc, List.map_append, List.map_cons] at hrep
      have hmerged := hrep.merge (merges_of_passes hmerge hearlier hlater hreload ?_) horder
      · rw [hslots]
        simpa only [List.map_append, List.map_cons, List.map_nil, Option.map_some, Option.map_none,
          List.append_assoc, List.cons_append] using hmerged
      · intro other hother
        rw [List.mem_map] at hother
        obtain ⟨slot, hslot, hevent⟩ := hother
        rw [Option.map_eq_some_iff] at hevent
        obtain ⟨between', rfl, rfl⟩ := hevent
        exact hbetween between' hslot
  · change Numbered epoch n (gone ++ (forwarder.queue.push frame).slots)
    rcases push_cases h.tracked frame with hslots | ⟨key, before, earlier, between, merged, hold,
      hslots, -, -, -, -⟩
    · rw [hslots, ← List.append_assoc]
      exact numbered_concat h.numbered hepoch (by omega)
    · rw [hslots, ← List.append_assoc]
      have hnumbered := h.numbered
      rw [hold] at hnumbered hlength
      rw [← List.append_assoc] at hnumbered ⊢
      refine numbered_concat (numbered_set hnumbered fun _ hnone ↦ by cases hnone) hepoch ?_
      simp only [List.length_append, List.length_cons] at hlength ⊢
      omega
  · exact h.linked
  · exact hsent.1.trans h.last_eq
  · intro _
    refine hsent.2.trans ?_
    by_cases hfirst : history = []
    · have hgone : gone = [] := by
        rw [hfirst, List.length_nil, List.length_append] at hlength
        exact List.eq_nil_of_length_eq_zero (by omega)
      have hnone := h.last_eq
      rw [h.sent_eq, hgone] at hnone
      rw [FrameQueue.begin, h.none_sent hfirst, hnone, hcovers, hfirst]
      rfl
    · rw [FrameQueue.begin, h.first_eq hfirst]
      rfl
  · intro hnil
    exact absurd hnil (List.append_ne_nil_of_right_ne_nil _ (List.cons_ne_nil _ _))

/-- The frame that leaves the queue covers the stream from the last one that left. -/
theorem coversFrom_outgoing (h : Forwards epoch n base history gone forwarder)
    {frame : EventFrame P} (hstarted : history ≠ []) :
    (forwarder.queue.outgoing frame).coversFrom =
      (forwarder.sent.getLast?.map EventFrame.sequence).getD n := by
  have hprevious : (forwarder.queue.lastSent.or forwarder.queue.firstFrom).getD frame.coversFrom =
      (forwarder.sent.getLast?.map EventFrame.sequence).getD n := by
    rw [h.first_eq hstarted, h.last_eq]
    cases forwarder.sent.getLast? <;> rfl
  rw [FrameQueue.outgoing, hprevious]
  by_cases hnext : (forwarder.sent.getLast?.map EventFrame.sequence).getD n = frame.sequence - 1
  · simp [EventFrame.coversFrom, hnext]
  · simp [EventFrame.coversFrom, hnext]

/-- A frame that is taken out leaves with its place and the empty places around it. -/
theorem pop (h : Forwards epoch n base history gone forwarder) :
    ∃ gone', Forwards epoch n base history gone' (forwarder.step .pop) := by
  have htracked : (forwarder.step .pop).queue.Tracked := h.tracked.pop
  rcases FrameQueue.pop_cases h.tracked with ⟨hnone, hgone, hslots, hlast, hfirst⟩ |
    ⟨skipped, frame, passed, rest, hold, hskipped, hpassed, hsome, hslots, hlast, hfirst⟩
  · have hsent : (forwarder.step .pop).sent = forwarder.sent := by
      simp [Forwarder.step, hnone]
    have hplaces : (gone ++ forwarder.queue.slots) ++ (forwarder.step .pop).queue.slots =
        gone ++ forwarder.queue.slots := by
      simp [Forwarder.step, hslots]
    refine ⟨gone ++ forwarder.queue.slots, htracked, ?_, ?_, ?_, hsent ▸ h.linked, ?_, ?_, ?_⟩
    · rw [hsent, List.filterMap_append, hgone, List.append_nil]
      exact h.sent_eq
    · rw [hplaces]
      exact h.represents
    · rw [hplaces]
      exact h.numbered
    · rw [hsent]
      exact hlast.trans h.last_eq
    · intro hstarted
      exact hfirst.trans (h.first_eq hstarted)
    · intro hnil
      exact hfirst.trans (h.none_sent hnil)
  · have hsent : (forwarder.step .pop).sent =
        forwarder.sent ++ [forwarder.queue.outgoing frame] := by
      simp [Forwarder.step, hsome]
    have hstarted : history ≠ [] := by
      intro hnil
      have hlength := h.length_eq
      rw [hold, hnil] at hlength
      simp at hlength
    have hbefore : gone ++ forwarder.queue.slots =
        (gone ++ skipped) ++ some frame :: (passed ++ rest) := by
      rw [hold, List.append_assoc]
    have hplaces : (gone ++ skipped ++ some (forwarder.queue.outgoing frame) :: passed) ++
        (forwarder.step .pop).queue.slots =
        (gone ++ skipped) ++ some (forwarder.queue.outgoing frame) :: (passed ++ rest) := by
      simp [Forwarder.step, hslots]
    refine ⟨gone ++ skipped ++ some (forwarder.queue.outgoing frame) :: passed, htracked, ?_, ?_, ?_,
      ?_, ?_, ?_, ?_⟩
    · rw [hsent, h.sent_eq, List.filterMap_append, List.filterMap_append, hskipped,
        List.filterMap_cons, hpassed, List.append_nil]
      rfl
    · have hrep := h.represents
      rw [hbefore] at hrep
      rw [hplaces]
      simpa only [List.map_append, List.map_cons, Option.map_some, FrameQueue.outgoing] using hrep
    · rw [hplaces]
      exact numbered_set (hbefore ▸ h.numbered) fun _ hother ↦ by cases hother; exact ⟨rfl, rfl⟩
    · rw [hsent, linked_concat]
      exact ⟨h.linked, h.coversFrom_outgoing hstarted⟩
    · rw [hsent, List.getLast?_concat]
      exact hlast
    · intro _
      exact hfirst.trans (h.first_eq hstarted)
    · intro hnil
      exact absurd hnil hstarted

/-- Whatever the order of operations, what was sent and what waits represent the stream. -/
theorem run {ops : List (QueueOp P)} (hstream : Stream epoch n (pushed ops))
    (hreload : ∀ frame ∈ pushed ops, frame.event.ReloadsSome)
    (horder : ∀ k, QueueInOrder
      (Base.run applyServiceEvent base (((pushed ops).take k).map EventFrame.event))) :
    ∃ gone, Forwards epoch n base (pushed ops) gone
      (Base.run Forwarder.step Forwarder.new ops) := by
  induction ops using List.reverseRecOn with
  | nil => exact ⟨[], new (horder 0)⟩
  | append_singleton ops op ih =>
    rw [run_concat]
    cases op with
    | push frame =>
      have hpushed : pushed (ops ++ [.push frame]) = pushed ops ++ [frame] := by simp [pushed]
      rw [hpushed] at hstream hreload horder ⊢
      have hstream' : Stream epoch n (pushed ops) := by
        intro i other hother
        apply hstream i other
        rw [List.getElem?_append_left (List.getElem?_eq_some_iff.mp hother).1, hother]
      have horder' : ∀ k, QueueInOrder
          (Base.run applyServiceEvent base (((pushed ops).take k).map EventFrame.event)) := by
        intro k
        by_cases hk : k ≤ (pushed ops).length
        · have hprefix := horder k
          rwa [List.take_append_of_le_length hk] at hprefix
        · have hprefix := horder (pushed ops).length
          rw [List.take_append_of_le_length (Nat.le_refl _), List.take_length] at hprefix
          rwa [List.take_of_length_le (by omega)]
      obtain ⟨gone, hforwards⟩ :=
        ih hstream' (fun other hother ↦ hreload other (List.mem_append_left _ hother)) horder'
      obtain ⟨hepoch, hsequence, hcovers⟩ := hstream (pushed ops).length frame (by simp)
      refine ⟨gone, hforwards.push (hreload frame (by simp)) hepoch hsequence hcovers ?_⟩
      have hend := horder ((pushed ops).length + 1)
      rwa [List.take_of_length_le (by simp)] at hend
    | pop =>
      have hpushed : pushed (ops ++ [.pop]) = pushed ops := by simp [pushed]
      rw [hpushed] at hstream hreload horder ⊢
      obtain ⟨gone, hforwards⟩ := ih hstream hreload horder
      exact hforwards.pop

end Forwards

/-! ## A client of the stream -/

/-- A client whose cursor lies before all frames but behind where they start to cover the
stream takes every one. -/
theorem replay_linked {epoch : String} {n from' cursor : Nat}
    {slots : List (Option (EventFrame P))} (hnumbered : Numbered epoch n slots)
    (hlinked : Linked from' (slots.filterMap id)) (hfrom : from' ≤ cursor) (hcursor : cursor ≤ n)
    (snapshot : AgentSnapshot P) :
    replay epoch snapshot cursor (slots.filterMap id) =
      some (runLog applyServiceEvent snapshot (slots.map (Option.map EventFrame.event))) := by
  induction slots generalizing n from' cursor snapshot with
  | nil => rfl
  | cons slot slots ih =>
    obtain ⟨hslot, hrest⟩ := numbered_cons hnumbered
    cases slot with
    | none => exact ih hrest hlinked hfrom (by omega) snapshot
    | some frame =>
      obtain ⟨hepoch, hsequence⟩ := hslot frame rfl
      obtain ⟨hcovers, hlinked⟩ := hlinked
      have haccept : judgeFrame epoch cursor frame = .accept := by
        rw [judgeFrame, if_neg (not_not.mpr hepoch), if_neg (by omega), if_pos (by omega)]
      change replay epoch snapshot cursor (frame :: slots.filterMap id) = _
      rw [replay, haccept]
      exact ih hrest hlinked (Nat.le_refl _) (by omega) _

/-- A client at a cursor skips the places before it and takes the others. -/
theorem replay_numbered {epoch : String} {n from' c : Nat}
    {slots : List (Option (EventFrame P))} (hnumbered : Numbered epoch n slots)
    (hlinked : Linked from' (slots.filterMap id)) (hfrom : from' ≤ n + c)
    (snapshot : AgentSnapshot P) :
    replay epoch snapshot (n + c) (slots.filterMap id) =
      some (runLog applyServiceEvent snapshot
        ((slots.drop c).map (Option.map EventFrame.event))) := by
  induction slots generalizing n from' c with
  | nil => rw [List.drop_nil]; rfl
  | cons slot slots ih =>
    cases c with
    | zero => exact replay_linked hnumbered hlinked hfrom (Nat.le_refl _) snapshot
    | succ c =>
      obtain ⟨hslot, hrest⟩ := numbered_cons hnumbered
      have hcursor : n + (c + 1) = n + 1 + c := by omega
      rw [hcursor] at hfrom ⊢
      cases slot with
      | none => exact ih hrest hlinked hfrom
      | some frame =>
        obtain ⟨hepoch, hsequence⟩ := hslot frame rfl
        have hskip : judgeFrame epoch (n + 1 + c) frame = .skip := by
          rw [judgeFrame, if_neg (not_not.mpr hepoch), if_pos (by omega)]
        change replay epoch snapshot (n + 1 + c) (frame :: slots.filterMap id) = _
        rw [replay, hskip]
        exact ih hrest hlinked.2 (by omega)

private theorem run_applyFrame (snapshot : AgentSnapshot P) (frames : List (EventFrame P)) :
    run applyFrame snapshot frames =
      run applyServiceEvent snapshot (frames.map EventFrame.event) := by
  rw [run, run, List.foldl_map]
  rfl

private theorem runLog_events (snapshot : AgentSnapshot P) (slots : List (Option (EventFrame P))) :
    runLog applyServiceEvent snapshot (slots.map (Option.map EventFrame.event)) =
      run applyFrame snapshot (slots.filterMap id) := by
  rw [run_applyFrame, runLog, List.filterMap_map, List.map_filterMap]
  rfl

/-- Merging frames is transparent: whatever the order in which the frames of a stream are queued
and taken out, what was taken out of a queue that holds nothing any more leads the projection
where the stream leads it, and a client that joins the stream at any cut is never asked to start
over and ends in the same projection. -/
theorem coalescing_transparent (epoch : String) (n : Nat) (base : AgentSnapshot P)
    (ops : List (QueueOp P)) (hstream : Stream epoch n (pushed ops))
    (hreload : ∀ frame ∈ pushed ops, frame.event.ReloadsSome)
    (horder : ∀ k, InOrder (run applyFrame base ((pushed ops).take k)).daemon.queuePositions) :
    let forwarder := run Forwarder.step Forwarder.new ops
    (forwarder.queue.len = 0 →
        run applyFrame base forwarder.sent = run applyFrame base (pushed ops)) ∧
      ∀ c ≤ (pushed ops).length,
        let client := replay epoch (run applyFrame base ((pushed ops).take c)) (n + c)
          forwarder.sent
        client.isSome ∧
          (forwarder.queue.len = 0 → client = some (run applyFrame base (pushed ops))) := by
  intro forwarder
  have hvalid : ∀ k, QueueInOrder
      (run applyServiceEvent base (((pushed ops).take k).map EventFrame.event)) := by
    intro k
    rw [← run_applyFrame]
    exact horder k
  obtain ⟨gone, hforwards⟩ := Forwards.run hstream hreload hvalid
  have hnumbered : Numbered epoch n gone := by
    intro i frame hframe
    apply hforwards.numbered i frame
    rw [List.getElem?_append_left (List.getElem?_eq_some_iff.mp hframe).1, hframe]
  have hlinked : Linked n (gone.filterMap id) := hforwards.sent_eq ▸ hforwards.linked
  -- A queue that holds nothing: from each cut on, what was sent leads to the end.
  have hdrained : forwarder.queue.len = 0 → ∀ c ≤ (pushed ops).length,
      runLog applyServiceEvent (run applyFrame base ((pushed ops).take c))
        ((gone.drop c).map (Option.map EventFrame.event)) = run applyFrame base (pushed ops) := by
    intro hempty c hc
    have hslots : forwarder.queue.slots.filterMap id = [] :=
      List.eq_nil_of_length_eq_zero (hforwards.tracked.live_eq ▸ hempty)
    have hreach := hforwards.represents.reaches c (by simpa using hc)
    rw [← List.map_take, ← run_applyFrame, ← run_applyFrame, ← List.map_drop, List.drop_append,
      List.map_append, runLog_append] at hreach
    rw [← hreach, runLog_events _ (forwarder.queue.slots.drop _)]
    have hdrop : (forwarder.queue.slots.drop (c - gone.length)).filterMap id = [] := by
      rw [List.filterMap_eq_nil_iff] at hslots ⊢
      intro slot hslot
      exact hslots slot (List.mem_of_mem_drop hslot)
    rw [hdrop]
    rfl
  constructor
  · intro hempty
    have hall := hdrained hempty 0 (Nat.zero_le _)
    rwa [List.take_zero, List.drop_zero, runLog_events, ← hforwards.sent_eq] at hall
  · intro c hc
    have hclient := replay_numbered hnumbered hlinked (Nat.le_add_right n c)
      (run applyFrame base ((pushed ops).take c))
    rw [← hforwards.sent_eq] at hclient
    constructor
    · rw [hclient]
      rfl
    · intro hempty
      rw [hclient, hdrained hempty c hc]


/-! ## Tables in order and out of order -/

/-- A projection with a queue of three tasks. -/
def queueOf (first second third : QueuePositionDto) : AgentSnapshot noPayloads :=
  { AgentSnapshot.initial with
    daemon := { DaemonSnapshot.initial with queuePositions := [first, second, third] } }

/-- Two differences are queued before anything is taken out. -/
def twoDifferences : List (QueueOp noPayloads) :=
  [.push ⟨"epoch", 1, none, .daemon (.engine (.queueOrderChanged [] [⟨"x", 20⟩]))⟩,
    .push ⟨"epoch", 2, none, .daemon (.engine (.queueOrderChanged ["e"] []))⟩, .pop]

private theorem stream_twoDifferences : Stream "epoch" 0 (pushed twoDifferences) := by
  intro i frame hframe
  match i, hframe with
  | 0, hframe => cases hframe; exact ⟨rfl, rfl, rfl⟩
  | 1, hframe => cases hframe; exact ⟨rfl, rfl, rfl⟩

private theorem reloadsSome_twoDifferences :
    ∀ frame ∈ pushed twoDifferences, frame.event.ReloadsSome := by
  intro frame hframe event hevent
  simp only [pushed, twoDifferences, List.filterMap_cons, List.filterMap_nil, List.mem_cons,
    List.not_mem_nil, or_false] at hframe
  rcases hframe with rfl | rfl <;> cases hevent <;> trivial

/-- The tables a client of the two differences passes. -/
theorem passed_twoDifferences {G : List QueuePositionDto → Prop}
    {base : AgentSnapshot noPayloads} {added removed : List QueuePositionDto}
    (hadded : applyQueueOrder base.daemon.queuePositions [] [⟨"x", 20⟩] = added)
    (hremoved : applyQueueOrder added ["e"] [] = removed) (h : G base.daemon.queuePositions)
    (h' : G added) (h'' : G removed) (k : Nat) :
    G (run applyFrame base ((pushed twoDifferences).take k)).daemon.queuePositions := by
  match k with
  | 0 => exact h
  | 1 =>
    rw [← hadded] at h'
    exact h'
  | k + 2 =>
    have htake : (pushed twoDifferences).take (k + 2) = pushed twoDifferences :=
      List.take_of_length_le (Nat.le_add_left 2 k)
    rw [htake]
    rw [← hremoved, ← hadded] at h''
    exact h''

/-- Two differences of the queue in a row. -/
theorem coalescing_transparent_two_differences :
    replay "epoch"
        (run applyFrame (queueOf ⟨"b", 1, 10⟩ ⟨"e", 2, 30⟩ ⟨"f", 3, 40⟩)
          ((pushed twoDifferences).take 1)) 1
        (run Forwarder.step Forwarder.new twoDifferences).sent =
      some (run applyFrame (queueOf ⟨"b", 1, 10⟩ ⟨"e", 2, 30⟩ ⟨"f", 3, 40⟩)
        (pushed twoDifferences)) := by
  have hadded : applyQueueOrder [⟨"b", 1, 10⟩, ⟨"e", 2, 30⟩, ⟨"f", 3, 40⟩] [] [⟨"x", 20⟩] =
      [⟨"b", 1, 10⟩, ⟨"x", 2, 20⟩, ⟨"e", 3, 30⟩, ⟨"f", 4, 40⟩] := by
    simp [applyQueueOrder, spliceQueue, latestEntries, sortByRank, renumber, unrankedRow, rankOf]
  have hremoved :
      applyQueueOrder [⟨"b", 1, 10⟩, ⟨"x", 2, 20⟩, ⟨"e", 3, 30⟩, ⟨"f", 4, 40⟩] ["e"] [] =
        [⟨"b", 1, 10⟩, ⟨"x", 2, 20⟩, ⟨"f", 3, 40⟩] := by
    simp [applyQueueOrder, spliceQueue, latestEntries, sortByRank, renumber, rankOf]
  exact ((coalescing_transparent "epoch" 0 _ twoDifferences stream_twoDifferences
    reloadsSome_twoDifferences
    (passed_twoDifferences hadded hremoved (by decide) (by decide) (by decide))).2 1
    (by decide)).2 rfl

/-- A table out of order with distinct keys: taken one by one, the first difference puts its
task before the row it finds out of order; the composed difference finds the rows in order. -/
theorem coalescing_reorders :
    let base := queueOf ⟨"e", 1, 30⟩ ⟨"b", 2, 10⟩ ⟨"f", 3, 40⟩
    let forwarder := run Forwarder.step Forwarder.new twoDifferences
    Stream "epoch" 0 (pushed twoDifferences) ∧
      (∀ frame ∈ pushed twoDifferences, frame.event.ReloadsSome) ∧
      (∀ k, ((run applyFrame base ((pushed twoDifferences).take k)).daemon.queuePositions.map
        QueuePosition.order).Nodup) ∧
      forwarder.queue.len = 0 ∧
      (run applyFrame base (pushed twoDifferences)).daemon.queuePositions =
        [⟨"x", 1, 20⟩, ⟨"b", 2, 10⟩, ⟨"f", 3, 40⟩] ∧
      (run applyFrame base forwarder.sent).daemon.queuePositions =
        [⟨"b", 1, 10⟩, ⟨"x", 2, 20⟩, ⟨"f", 3, 40⟩] := by
  intro base forwarder
  have hadded : applyQueueOrder [⟨"e", 1, 30⟩, ⟨"b", 2, 10⟩, ⟨"f", 3, 40⟩] [] [⟨"x", 20⟩] =
      [⟨"x", 1, 20⟩, ⟨"e", 2, 30⟩, ⟨"b", 3, 10⟩, ⟨"f", 4, 40⟩] := by
    simp [applyQueueOrder, spliceQueue, latestEntries, sortByRank, renumber, unrankedRow, rankOf]
  have hremoved :
      applyQueueOrder [⟨"x", 1, 20⟩, ⟨"e", 2, 30⟩, ⟨"b", 3, 10⟩, ⟨"f", 4, 40⟩] ["e"] [] =
        [⟨"x", 1, 20⟩, ⟨"b", 2, 10⟩, ⟨"f", 3, 40⟩] := by
    simp [applyQueueOrder, spliceQueue, latestEntries, sortByRank, renumber, rankOf]
  have hcomposed : applyQueueOrder [⟨"e", 1, 30⟩, ⟨"b", 2, 10⟩, ⟨"f", 3, 40⟩] ["e"] [⟨"x", 20⟩] =
      [⟨"b", 1, 10⟩, ⟨"x", 2, 20⟩, ⟨"f", 3, 40⟩] := by
    simp [applyQueueOrder, spliceQueue, latestEntries, sortByRank, renumber, unrankedRow, rankOf]
  refine ⟨stream_twoDifferences, reloadsSome_twoDifferences, ?_, rfl, ?_, hcomposed⟩
  · intro k
    exact passed_twoDifferences
      (G := fun rows ↦ (rows.map QueuePosition.order).Nodup) hadded hremoved (by decide)
      (by decide) (by decide) k
  · rw [← hremoved, ← hadded]
    rfl

end Protocol
