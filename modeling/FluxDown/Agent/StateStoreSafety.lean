import FluxDown.Agent.StateStore
import FluxDown.Base.Indexed
import FluxDown.Base.Run

/-!
# Acknowledged snapshots stay

Library `Agent`. As long as no rollback replaces a snapshot that was acknowledged meanwhile and
no waiting snapshot is skipped because of a rollback, the state file holds a snapshot at least
as new as every acknowledged one, and a rollback brings back the newest of these.
-/

namespace Agent.StateStore

open Base

/-- The file holds a snapshot at least as new as the acknowledged one. -/
def Covers (held : Option Nat) (generation : Nat) : Prop := ∃ k, held = some k ∧ generation ≤ k

/-- One content is at least as new as the other; what was found first is the oldest. -/
def Newer (held other : Option Nat) : Prop := ∀ k, other = some k → Covers held k

/-- Every acknowledged snapshot is still in the file or a newer one is. -/
def Durable (s : StateStore) : Prop :=
  ∀ w ∈ s.writes, w.acked = true → ∃ w' ∈ s.writes, w'.kind = .snapshot ∧
    w.generation ≤ w'.generation ∧ s.file = w'.content

/-- The file holds the newest acknowledged snapshot, or what was found if there is none. -/
def HoldsNewest (initial : Option Bytes) (s : StateStore) : Prop :=
  (∃ w ∈ s.writes, w.acked = true ∧ s.file = w.content ∧
      ∀ w' ∈ s.writes, w'.acked = true → w'.generation ≤ w.generation) ∨
    (∀ w ∈ s.writes, w.acked = false) ∧ s.file = initial

/-- What a rollback puts in place. -/
def restores : WriteKind → Option (Option Nat)
  | .snapshot => none
  | .rollback held => some held

/-- A rollback that replaces the file finds no acknowledged snapshot newer than the one it was
read from, which was acknowledged too; a snapshot that is skipped after a rollback is no newer
than what the rollback put in place. -/
def Fenced (s : StateStore) : Op → Prop
  | .rename n true =>
    ∀ w ∈ s.writes[n]?, w.phase = .locked → ∀ held ∈ restores w.kind,
      (∀ a ∈ s.writes, a.acked = true → ∃ k ∈ held, a.generation ≤ k) ∧
        ∀ k ∈ held, ∃ a ∈ s.writes, a.acked = true ∧ a.generation = k
  | .lock n =>
    ∀ w ∈ s.writes[n]?, w.kind = .snapshot → w.phase = .waiting → w.generation < s.written →
      ∀ held ∈ s.fence, ∃ k ∈ held, w.generation ≤ k
  | _ => True

/-- The content that belongs to a generation: that of its snapshot, or what was found. -/
def ContentOf (initial : Option Bytes) (writes : List Write) (held : Option Nat)
    (content : Option Bytes) : Prop :=
  match held with
  | none => content = initial
  | some k => ∃ w ∈ writes, w.kind = .snapshot ∧ w.generation = k ∧ content = w.content

/-- What a change under way has read. -/
def readBy : ChangePhase → Option (Option Bytes × Option Nat)
  | .readState | .undoing _ => none
  | .readEndpoint state held => some (state, held)
  | .saveEndpoint old | .saveState old | .saving old _ | .undoEndpoint old | .undoState old =>
    some (old.state, old.held)

/-- What holds of a write while it is under way. -/
structure WriteSound (initial : Option Bytes) (s : StateStore) (n : Nat) (w : Write) : Prop where
  locked : w.kind = .snapshot → w.busy = true → s.written ≤ w.generation
  renamed : w.phase = .renamed → s.file = w.content ∧ match w.kind with
    | .snapshot => s.held = some w.generation
    | .rollback held => s.held = held ∧
      ∀ a ∈ s.writes, a.acked = true → a.generation < w.generation
  rollback : ∀ held, w.kind = .rollback held →
    ContentOf initial s.writes held w.content ∧ (∀ k, held = some k → k < w.generation) ∧
      ((∀ ok, w.phase ≠ .returned ok) →
        (∀ f, s.fence = some f → Newer held f) ∧ s.change.map Change.phase = some (.undoing n))

/-- What every step keeps. -/
structure Sound (initial : Option Bytes) (s : StateStore) : Prop where
  sorted : (s.writes.map Write.generation).Pairwise (· < ·)
  fresh : ∀ w ∈ s.writes, w.generation < s.generation
  covered : ∀ w ∈ s.writes, w.acked = true → Covers s.held w.generation
  content : ContentOf initial s.writes s.held s.file
  below : ∀ w ∈ s.writes, w.acked = true → w.generation ≤ s.written
  recorded : s.fence = none → s.written = 0 ∨
    ∃ w ∈ s.writes, w.acked = true ∧ w.generation = s.written
  fence : ∀ f, s.fence = some f → Newer s.held f ∧ ∀ k, f = some k → k ≤ s.written
  writes : ∀ n w, s.writes[n]? = some w → WriteSound initial s n w
  alone : ∀ (n : Nat) (w : Write) (n' : Nat) (w' : Write), s.writes[n]? = some w →
    s.writes[n']? = some w' → w.busy = true → w'.busy = true → n = n'
  change : ∀ c, s.change = some c → ∀ state held, readBy c.phase = some (state, held) →
    ContentOf initial s.writes held state ∧ (∀ k, held = some k → k < s.generation) ∧
      ∀ f, s.fence = some f → Newer held f

section Phases

variable {s : StateStore} {n m : Nat} {w w' : Write} {phase : WritePhase}

private theorem setPhase_cases (hw : s.writes[n]? = some w)
    (h : (s.setPhase n phase).writes[m]? = some w') :
    (m = n ∧ w' = { w with phase }) ∨ (m ≠ n ∧ s.writes[m]? = some w') := by
  rcases getElem?_modify_some h with ⟨rfl, x, hx, rfl⟩ | hother
  · rw [hw] at hx
    obtain rfl := Option.some.inj hx
    exact Or.inl ⟨rfl, rfl⟩
  · exact Or.inr hother

private theorem mem_setPhase (hw : s.writes[n]? = some w)
    (h : w' ∈ (s.setPhase n phase).writes) : w' = { w with phase } ∨ w' ∈ s.writes := by
  obtain ⟨m, hm⟩ := List.getElem?_of_mem h
  rcases setPhase_cases hw hm with ⟨-, rfl⟩ | ⟨-, hm⟩
  · exact Or.inl rfl
  · exact Or.inr (List.mem_of_getElem? hm)

private theorem exists_setPhase (hw' : w' ∈ s.writes) :
    ∃ x ∈ (s.setPhase n phase).writes, x.kind = w'.kind ∧ x.generation = w'.generation ∧
      x.content = w'.content ∧ (w'.phase = x.phase ∨ s.writes[n]? = some w') := by
  obtain ⟨m, hm⟩ := List.getElem?_of_mem hw'
  by_cases hmn : n = m
  · subst hmn
    refine ⟨{ w' with phase }, List.mem_of_getElem? (i := n) ?_, rfl, rfl, rfl, Or.inr hm⟩
    simp [setPhase, hm]
  · refine ⟨w', List.mem_of_getElem? (i := m) ?_, rfl, rfl, rfl, Or.inl rfl⟩
    simp [setPhase, hm, hmn]

/-- Acknowledged writes stay when another write moves on. -/
theorem acked_of_setPhase (hw : s.writes[n]? = some w) (hphase : w.acked = false)
    (hw' : w' ∈ s.writes) (hacked : w'.acked = true) : w' ∈ (s.setPhase n phase).writes := by
  obtain ⟨m, hm⟩ := List.getElem?_of_mem hw'
  have hmn : n ≠ m := by
    rintro rfl
    rw [hw] at hm
    obtain rfl := Option.some.inj hm
    rw [hphase] at hacked
    cases hacked
  refine List.mem_of_getElem? (i := m) ?_
  simp [setPhase, hm, hmn]

/-- Nothing is acknowledged by a phase other than a successful return. -/
theorem acked_setPhase (hw : s.writes[n]? = some w) (hphase : phase ≠ .returned true)
    (h : w' ∈ (s.setPhase n phase).writes) (hacked : w'.acked = true) : w' ∈ s.writes := by
  rcases mem_setPhase hw h with rfl | h
  · simp [Write.acked, hphase] at hacked
  · exact h

private theorem contentOf_setPhase {initial : Option Bytes} {held : Option Nat}
    {content : Option Bytes} (h : ContentOf initial s.writes held content) :
    ContentOf initial (s.setPhase n phase).writes held content := by
  cases held with
  | none => exact h
  | some k =>
    obtain ⟨w, hw, hkind, hgeneration, hcontent⟩ := h
    obtain ⟨x, hx, hxkind, hxgeneration, hxcontent, -⟩ : ∃ x ∈ (s.setPhase n phase).writes,
        x.kind = w.kind ∧ x.generation = w.generation ∧ x.content = w.content ∧
          (w.phase = x.phase ∨ s.writes[n]? = some w) := exists_setPhase hw
    exact ⟨x, hx, hxkind.trans hkind, hxgeneration.trans hgeneration, by rw [hxcontent, hcontent]⟩

private theorem generations_setPhase :
    (s.setPhase n phase).writes.map Write.generation = s.writes.map Write.generation :=
  map_modify_of_view (f := fun w : Write ↦ { w with phase }) (g := Write.generation)
    (fun _ ↦ rfl) s.writes n

private theorem contentOf_append {initial : Option Bytes} {writes : List Write}
    {held : Option Nat} {content : Option Bytes} (h : ContentOf initial writes held content)
    (rest : List Write) : ContentOf initial (writes ++ rest) held content := by
  cases held with
  | none => exact h
  | some k =>
    obtain ⟨w, hw, hspec⟩ := h
    exact ⟨w, List.mem_append_left _ hw, hspec⟩

end Phases

section Steps

variable {initial : Option Bytes} {s : StateStore}

/-- Another phase of the change, with the endpoint file. -/
theorem sound_change (h : s.Sound initial) (endpoint : Option Bytes)
    (change : Option Change)
    (hkeep : ∀ n w held, s.writes[n]? = some w → w.kind = .rollback held →
      (∀ ok, w.phase ≠ .returned ok) → change.map Change.phase = some (.undoing n))
    (hchange : ∀ c, change = some c → ∀ state held, readBy c.phase = some (state, held) →
      ContentOf initial s.writes held state ∧ (∀ k, held = some k → k < s.generation) ∧
        ∀ f, s.fence = some f → Newer held f) :
    ({ s with endpoint, change } : StateStore).Sound initial where
  sorted := h.sorted
  fresh := h.fresh
  covered := h.covered
  content := h.content
  below := h.below
  recorded := h.recorded
  fence := h.fence
  writes := by
    intro n w hw
    have hsound := h.writes n w hw
    refine ⟨hsound.locked, hsound.renamed, fun held hkind ↦ ?_⟩
    obtain ⟨hcontent, hgeneration, hopen⟩ := hsound.rollback held hkind
    exact ⟨hcontent, hgeneration, fun hphase ↦
      ⟨(hopen hphase).1, hkeep n w held hw hkind hphase⟩⟩
  alone := h.alone
  change := hchange

/-- A new write, while the change goes on. -/
theorem sound_enqueue (h : s.Sound initial) {content : Option Bytes} {kind : WriteKind}
    (change : Option Change)
    (hkind : ∀ held, kind = .rollback held → ContentOf initial s.writes held content ∧
      (∀ k, held = some k → k < s.generation) ∧ (∀ f, s.fence = some f → Newer held f) ∧
      change.map Change.phase = some (.undoing s.writes.length))
    (hkeep : ∀ n w held, s.writes[n]? = some w → w.kind = .rollback held →
      (∀ ok, w.phase ≠ .returned ok) → change.map Change.phase = some (.undoing n))
    (hchange : ∀ c, change = some c → ∀ state held, readBy c.phase = some (state, held) →
      ContentOf initial s.writes held state ∧ (∀ k, held = some k → k < s.generation) ∧
        ∀ f, s.fence = some f → Newer held f) :
    ({ s.enqueue content kind with change } : StateStore).Sound initial := by
  have hcases : ∀ {n : Nat} {w : Write}, (s.enqueue content kind).writes[n]? = some w →
      (n = s.writes.length ∧
        w = { generation := s.generation, content, kind, phase := .waiting }) ∨
      s.writes[n]? = some w := fun hw ↦ getElem?_concat_some hw
  have hacked : ∀ w ∈ (s.enqueue content kind).writes, w.acked = true → w ∈ s.writes := by
    intro w hw hacked
    rcases List.mem_append.mp hw with hw | hw
    · exact hw
    · rw [List.mem_singleton] at hw
      subst hw
      simp [Write.acked] at hacked
  have hbusy : ∀ {n : Nat} {w : Write}, (s.enqueue content kind).writes[n]? = some w →
      w.busy = true → s.writes[n]? = some w := by
    intro n w hw hbusy
    rcases hcases hw with ⟨-, rfl⟩ | hw
    · simp [Write.busy] at hbusy
    · exact hw
  refine ⟨?_, ?_, fun w hw ha ↦ h.covered w (hacked w hw ha) ha, contentOf_append h.content _,
    fun w hw ha ↦ h.below w (hacked w hw ha) ha, ?_, h.fence, ?_, ?_, ?_⟩
  · change ((s.writes ++ [_]).map Write.generation).Pairwise (· < ·)
    rw [List.map_append, List.pairwise_append]
    refine ⟨h.sorted, List.pairwise_singleton _ _, fun a ha b hb ↦ ?_⟩
    obtain ⟨w, hw, rfl⟩ := List.mem_map.mp ha
    obtain rfl : b = s.generation := by simpa using hb
    exact h.fresh w hw
  · intro w hw
    change w.generation < s.generation + 1
    rcases List.mem_append.mp hw with hw | hw
    · exact Nat.lt_succ_of_lt (h.fresh w hw)
    · rw [List.mem_singleton] at hw
      subst hw
      exact Nat.lt_succ_self _
  · intro hnone
    refine (h.recorded hnone).imp id fun hrecorded ↦ ?_
    obtain ⟨w, hw, hspec⟩ := hrecorded
    exact ⟨w, List.mem_append_left _ hw, hspec⟩
  · intro n w hw
    rcases hcases hw with ⟨rfl, rfl⟩ | hold
    · refine ⟨fun _ hbusy ↦ by simp [Write.busy] at hbusy, fun hphase ↦ (nomatch hphase), ?_⟩
      intro held heq
      obtain ⟨hcontent, hgeneration, hfence, hphase⟩ := hkind held heq
      exact ⟨contentOf_append hcontent _, hgeneration, fun _ ↦ ⟨hfence, hphase⟩⟩
    · have hsound := h.writes n w hold
      refine ⟨hsound.locked, fun hphase ↦ ?_, fun held hrollback ↦ ?_⟩
      · obtain ⟨hfile, hheld⟩ := hsound.renamed hphase
        refine ⟨hfile, ?_⟩
        cases hk : w.kind with
        | snapshot =>
          rw [hk] at hheld
          exact hheld
        | rollback held =>
          rw [hk] at hheld
          exact ⟨hheld.1, fun a ha hack ↦ hheld.2 a (hacked a ha hack) hack⟩
      · obtain ⟨hcontent, hgeneration, hopen⟩ := hsound.rollback held hrollback
        exact ⟨contentOf_append hcontent _, hgeneration, fun hphase ↦
          ⟨(hopen hphase).1, hkeep n w held hold hrollback hphase⟩⟩
  · exact fun n w n' w' hw hw' hb hb' ↦ h.alone n w n' w' (hbusy hw hb) (hbusy hw' hb') hb hb'
  · intro c hc state held hread
    obtain ⟨hcontent, hgeneration, hfence⟩ := hchange c hc state held hread
    exact ⟨contentOf_append hcontent _, fun k hk ↦ Nat.lt_succ_of_lt (hgeneration k hk), hfence⟩

/-- A write that is not acknowledged moves on without touching the files. -/
theorem sound_setPhase (h : s.Sound initial) {n : Nat} {w : Write}
    (hw : s.writes[n]? = some w) {phase : WritePhase} (hold : w.acked = false)
    (hnew : w.kind = .snapshot → phase = .returned true → Covers s.held w.generation ∧
      w.generation ≤ s.written)
    (hlocked : phase = .locked → w.kind = .snapshot → s.written ≤ w.generation)
    (hquiet : phase = .locked ∨ phase = .returned true →
      ∀ m x, m ≠ n → s.writes[m]? = some x → x.busy = false)
    (hrenamed : phase ≠ .renamed)
    (hopen : (∃ ok, phase = .returned ok) ∨ ∀ ok, w.phase ≠ .returned ok) :
    (s.setPhase n phase).Sound initial := by
  have hgenerations : ∀ x ∈ (s.setPhase n phase).writes, ∃ y ∈ s.writes,
      y.generation = x.generation := by
    intro x hx
    rcases mem_setPhase hw hx with rfl | hx
    · exact ⟨w, List.mem_of_getElem? hw, rfl⟩
    · exact ⟨x, hx, rfl⟩
  have hacked : ∀ x ∈ (s.setPhase n phase).writes, x.acked = true →
      Covers s.held x.generation ∧ x.generation ≤ s.written := by
    intro x hx ha
    rcases mem_setPhase hw hx with rfl | hx
    · simp only [Write.acked, Bool.and_eq_true, beq_iff_eq] at ha
      exact hnew ha.1 ha.2
    · exact ⟨h.covered x hx ha, h.below x hx ha⟩
  have hbusy : ∀ {m : Nat} {x : Write}, m ≠ n → s.writes[m]? = some x → x.busy = true →
      ({ w with phase } : Write).busy = false := by
    intro m x hmn hx hb
    by_cases hphase : phase = .locked
    · rw [hquiet (Or.inl hphase) m x hmn hx] at hb
      cases hb
    · simp [Write.busy, hphase, hrenamed]
  refine ⟨?_, ?_, fun x hx ha ↦ (hacked x hx ha).1, contentOf_setPhase h.content,
    fun x hx ha ↦ (hacked x hx ha).2, ?_, h.fence, ?_, ?_, ?_⟩
  · rw [generations_setPhase]
    exact h.sorted
  · intro x hx
    obtain ⟨y, hy, heq⟩ := hgenerations x hx
    rw [← heq]
    exact h.fresh y hy
  · intro hnone
    refine (h.recorded hnone).imp id fun hrecorded ↦ ?_
    obtain ⟨x, hx, ha, hspec⟩ := hrecorded
    exact ⟨x, acked_of_setPhase hw hold hx ha, ha, hspec⟩
  · intro m x hx
    rcases setPhase_cases hw hx with ⟨rfl, rfl⟩ | ⟨hmn, hx⟩
    · have hsound := h.writes m w hw
      refine ⟨fun hkind hb ↦ ?_, fun hphase ↦ absurd hphase hrenamed, fun held hkind ↦ ?_⟩
      · simp only [Write.busy, Bool.or_eq_true, beq_iff_eq, hrenamed, or_false] at hb
        exact hlocked hb hkind
      · obtain ⟨hcontent, hgeneration, hunfinished⟩ := hsound.rollback held hkind
        refine ⟨contentOf_setPhase hcontent, hgeneration, fun hphase ↦ ?_⟩
        rcases hopen with ⟨ok, hret⟩ | hphase'
        · exact absurd hret (hphase ok)
        · exact hunfinished hphase'
    · have hsound := h.writes m x hx
      refine ⟨hsound.locked, fun hphase ↦ ?_, fun held hkind ↦ ?_⟩
      · obtain ⟨hfile, hheld⟩ := hsound.renamed hphase
        refine ⟨hfile, ?_⟩
        have hbusyx : x.busy = true := by simp [Write.busy, hphase]
        cases hk : x.kind with
        | snapshot =>
          rw [hk] at hheld
          exact hheld
        | rollback held =>
          rw [hk] at hheld
          refine ⟨hheld.1, fun a ha hack ↦ ?_⟩
          rcases mem_setPhase hw ha with rfl | ha
          · simp only [Write.acked, Bool.and_eq_true, beq_iff_eq] at hack
            rw [hquiet (Or.inr hack.2) m x hmn hx] at hbusyx
            cases hbusyx
          · exact hheld.2 a ha hack
      · obtain ⟨hcontent, hgeneration, hunfinished⟩ := hsound.rollback held hkind
        exact ⟨contentOf_setPhase hcontent, hgeneration, hunfinished⟩
  · intro m x m' x' hx hx' hb hb'
    rcases setPhase_cases hw hx with ⟨rfl, rfl⟩ | ⟨hmn, hold⟩ <;>
      rcases setPhase_cases hw hx' with ⟨rfl, rfl⟩ | ⟨hmn', hold'⟩
    · rfl
    · rw [hbusy hmn' hold' hb'] at hb
      cases hb
    · rw [hbusy hmn hold hb] at hb'
      cases hb'
    · exact h.alone m x m' x' hold hold' hb hb'
  · intro c hc state held hread
    obtain ⟨hcontent, hrest⟩ := h.change c hc state held hread
    exact ⟨contentOf_setPhase hcontent, hrest⟩

private theorem busy_of_phase {w : Write} (h : w.phase = .locked ∨ w.phase = .renamed) :
    w.busy = true := by
  rcases h with h | h <;> simp [Write.busy, h]

private theorem quiet_of_busy (h : s.Sound initial) {n : Nat} {w : Write}
    (hw : s.writes[n]? = some w) (hb : w.busy = true) {m : Nat} {x : Write} (hmn : m ≠ n)
    (hx : s.writes[m]? = some x) : x.busy = false := by
  by_contra hbx
  rw [Bool.not_eq_false] at hbx
  exact hmn (h.alone m x n w hx hw hbx hb)

private theorem sound_lock (h : s.Sound initial) {n : Nat} (hf : s.Fenced (.lock n)) :
    (s.lock n).Sound initial := by
  unfold lock
  split
  · next generation content kind hw =>
    split
    · exact h
    · next hfree =>
      have hquiet : ∀ m x, m ≠ n → s.writes[m]? = some x → x.busy = false := by
        intro m x _ hx
        by_contra hb
        rw [Bool.not_eq_false] at hb
        exact hfree (List.any_eq_true.mpr ⟨x, List.mem_of_getElem? hx, hb⟩)
      have hunacked : ({ generation, content, kind, phase := .waiting } : Write).acked = false := by
        simp [Write.acked]
      split
      · next hskip =>
        obtain ⟨rfl, hlt⟩ := hskip
        refine sound_setPhase h hw hunacked (fun _ _ ↦ ⟨?_, Nat.le_of_lt hlt⟩) nofun
          (fun _ ↦ hquiet) nofun (Or.inl ⟨true, rfl⟩)
        -- The snapshot in the file is the written one or newer, or the rollback's.
        cases hfence : s.fence with
        | none =>
          rcases h.recorded hfence with hzero | ⟨a, ha, hacked, heq⟩
          · rw [hzero] at hlt
            exact absurd hlt (Nat.not_lt_zero _)
          · obtain ⟨k, hheld, hle⟩ := h.covered a ha hacked
            rw [← heq] at hlt
            exact ⟨k, hheld, Nat.le_trans (Nat.le_of_lt hlt) hle⟩
        | some held =>
          obtain ⟨k, hk, hle⟩ := hf _ hw rfl rfl hlt held hfence
          obtain ⟨k', hheld, hle'⟩ := (h.fence held hfence).1 k hk
          exact ⟨k', hheld, Nat.le_trans hle hle'⟩
      · next hkeep =>
        rw [not_and, Nat.not_lt] at hkeep
        exact sound_setPhase h hw hunacked nofun (fun _ hkind ↦ hkeep hkind) (fun _ ↦ hquiet)
          nofun (Or.inr nofun)
  · exact h

/-- A busy write puts its content in place. -/
theorem sound_renamed (h : s.Sound initial) {n : Nat} {w : Write}
    (hw : s.writes[n]? = some w) (hphase : w.phase = .locked) (held : Option Nat)
    (hcovered : ∀ x ∈ s.writes, x.acked = true → Covers held x.generation)
    (hcontent : ContentOf initial s.writes held w.content)
    (hfence : ∀ f, s.fence = some f → Newer held f)
    (hkind : match w.kind with
      | .snapshot => held = some w.generation
      | .rollback held' => held = held' ∧
        ∀ a ∈ s.writes, a.acked = true → a.generation < w.generation) :
    ({ s.setPhase n .renamed with file := w.content, held } : StateStore).Sound initial := by
  have hbusy : w.busy = true := busy_of_phase (Or.inl hphase)
  have hunacked : w.acked = false := by simp [Write.acked, hphase]
  have hacked : ∀ x ∈ (s.setPhase n .renamed).writes, x.acked = true → x ∈ s.writes :=
    fun x hx ha ↦ acked_setPhase hw WritePhase.noConfusion hx ha
  refine ⟨?_, ?_, fun x hx ha ↦ hcovered x (hacked x hx ha) ha, contentOf_setPhase hcontent,
    fun x hx ha ↦ h.below x (hacked x hx ha) ha, ?_, fun f hf ↦ ⟨hfence f hf, (h.fence f hf).2⟩,
    ?_, ?_, ?_⟩
  · change ((s.setPhase n .renamed).writes.map Write.generation).Pairwise (· < ·)
    rw [generations_setPhase]
    exact h.sorted
  · intro x hx
    rcases mem_setPhase hw hx with rfl | hx
    · exact h.fresh w (List.mem_of_getElem? hw)
    · exact h.fresh x hx
  · intro hnone
    refine (h.recorded hnone).imp id fun hrecorded ↦ ?_
    obtain ⟨x, hx, ha, hspec⟩ := hrecorded
    exact ⟨x, acked_of_setPhase hw hunacked hx ha, ha, hspec⟩
  · intro m x hx
    rcases setPhase_cases hw hx with ⟨rfl, rfl⟩ | ⟨hmn, hx⟩
    · have hsound := h.writes m w hw
      refine ⟨fun hk _ ↦ hsound.locked hk hbusy, fun _ ↦ ⟨rfl, ?_⟩, fun held' hk ↦ ?_⟩
      · change match w.kind with | .snapshot => _ | .rollback _ => _
        cases hk : w.kind with
        | snapshot =>
          rw [hk] at hkind
          exact hkind
        | rollback held' =>
          rw [hk] at hkind
          exact ⟨hkind.1, fun a ha hack ↦ hkind.2 a (hacked a ha hack) hack⟩
      · obtain ⟨hcontent', hgeneration, hunfinished⟩ := hsound.rollback held' hk
        exact ⟨contentOf_setPhase hcontent', hgeneration, fun _ ↦
          hunfinished (by rw [hphase]; exact nofun)⟩
    · have hsound := h.writes m x hx
      have hidle := quiet_of_busy h hw hbusy hmn hx
      refine ⟨fun _ hb ↦ ?_, fun hx' ↦ ?_, fun held' hk ↦ ?_⟩
      · rw [hidle] at hb
        cases hb
      · rw [busy_of_phase (Or.inr hx')] at hidle
        cases hidle
      · obtain ⟨hcontent', hgeneration, hunfinished⟩ := hsound.rollback held' hk
        exact ⟨contentOf_setPhase hcontent', hgeneration, hunfinished⟩
  · intro m x m' x' hx hx' hb hb'
    rcases setPhase_cases hw hx with ⟨rfl, rfl⟩ | ⟨hmn, hold⟩ <;>
      rcases setPhase_cases hw hx' with ⟨rfl, rfl⟩ | ⟨hmn', hold'⟩
    · rfl
    · exact h.alone _ w m' x' hw hold' hbusy hb'
    · exact h.alone m x _ w hold hw hb hbusy
    · exact h.alone m x m' x' hold hold' hb hb'
  · intro c hc state held' hread
    obtain ⟨hcontent', hrest⟩ := h.change c hc state held' hread
    exact ⟨contentOf_setPhase hcontent', hrest⟩

private theorem sound_rename (h : s.Sound initial) {n : Nat} {ok : Bool}
    (hf : s.Fenced (.rename n ok)) : (s.rename n ok).Sound initial := by
  unfold rename
  split
  · next generation content kind hw =>
    split
    · next hok =>
      subst hok
      have hsound := h.writes n _ hw
      have hcond := hf _ hw rfl
      cases kind with
      | snapshot =>
        have hle : s.written ≤ generation := hsound.locked rfl rfl
        refine sound_renamed h hw rfl (some generation)
          (fun x hx ha ↦ ⟨generation, rfl, Nat.le_trans (h.below x hx ha) hle⟩)
          ⟨_, List.mem_of_getElem? hw, rfl, rfl, rfl⟩ (fun f hfence k hk ↦ ?_) rfl
        exact ⟨generation, rfl, Nat.le_trans ((h.fence f hfence).2 k hk) hle⟩
      | rollback held =>
        obtain ⟨hcontent, hgeneration, hunfinished⟩ := hsound.rollback held rfl
        refine sound_renamed h hw rfl held (fun x hx ha ↦ ?_) hcontent (hunfinished nofun).1
          ⟨rfl, fun a ha hack ↦ ?_⟩
        · obtain ⟨k, hk, hle⟩ := (hcond held rfl).1 x hx ha
          exact ⟨k, hk, hle⟩
        · obtain ⟨k, hk, hle⟩ := (hcond held rfl).1 a ha hack
          exact Nat.lt_of_le_of_lt hle (hgeneration k hk)
    · exact sound_setPhase h hw (by simp [Write.acked]) nofun nofun nofun nofun
        (Or.inl ⟨false, rfl⟩)
  · exact h

private theorem sound_finish (h : s.Sound initial) (n : Nat) (ok : Bool) :
    (s.finish n ok).Sound initial := by
  unfold finish
  split
  · next generation content kind hw =>
    have hbusy : ({ generation, content, kind, phase := .renamed } : Write).busy = true := rfl
    have hunacked : ({ generation, content, kind, phase := .renamed } : Write).acked = false := by
      simp [Write.acked]
    split
    · have hsound := h.writes n _ hw
      obtain ⟨-, hheld⟩ := hsound.renamed rfl
      have hidle : ∀ {m : Nat} {x : Write}, m ≠ n → s.writes[m]? = some x → x.busy = false :=
        fun hmn hx ↦ quiet_of_busy h hw hbusy hmn hx
      have hsorted : ((s.setPhase n (.returned true)).writes.map Write.generation).Pairwise
          (· < ·) := by
        rw [generations_setPhase]
        exact h.sorted
      have hfresh : ∀ x ∈ (s.setPhase n (.returned true)).writes,
          x.generation < s.generation := by
        intro x hx
        rcases mem_setPhase hw hx with rfl | hx
        · have hold := h.fresh _ (List.mem_of_getElem? hw)
          exact hold
        · exact h.fresh x hx
      have halone : ∀ (m : Nat) (x : Write) (m' : Nat) (x' : Write),
          (s.setPhase n (.returned true)).writes[m]? = some x →
          (s.setPhase n (.returned true)).writes[m']? = some x' → x.busy = true →
          x'.busy = true → m = m' := by
        intro m x m' x' hx hx' hb hb'
        rcases setPhase_cases hw hx with ⟨-, rfl⟩ | ⟨-, hold⟩
        · simp [Write.busy] at hb
        · rcases setPhase_cases hw hx' with ⟨-, rfl⟩ | ⟨-, hold'⟩
          · simp [Write.busy] at hb'
          · exact h.alone m x m' x' hold hold' hb hb'
      -- Nobody else is busy, so only the rollback clause of the others is at stake.
      have hwrites : ∀ s' : StateStore,
          s'.writes = (s.setPhase n (.returned true)).writes → s'.change = s.change →
          (∀ m x held, m ≠ n → s.writes[m]? = some x → x.kind = .rollback held →
            (∀ ok, x.phase ≠ .returned ok) → ∀ f, s'.fence = some f → Newer held f) →
          ∀ m x, s'.writes[m]? = some x → WriteSound initial s' m x := by
        intro s' hwrites hchange hopen m x hx
        rw [hwrites] at hx
        rcases setPhase_cases hw hx with ⟨rfl, rfl⟩ | ⟨hmn, hx⟩
        · refine ⟨fun _ hb ↦ by simp [Write.busy] at hb, nofun, fun held hk ↦ ?_⟩
          obtain ⟨hcontent, hgeneration, -⟩ := hsound.rollback held hk
          refine ⟨?_, hgeneration, fun hphase ↦ absurd rfl (hphase true)⟩
          rw [hwrites]
          exact contentOf_setPhase hcontent
        · refine ⟨fun _ hb ↦ ?_, fun hphase ↦ ?_, fun held hk ↦ ?_⟩
          · rw [hidle hmn hx] at hb
            cases hb
          · have hcontra := hidle hmn hx
            rw [busy_of_phase (Or.inr hphase)] at hcontra
            cases hcontra
          · obtain ⟨hcontent, hgeneration, hunfinished⟩ := (h.writes m x hx).rollback held hk
            refine ⟨?_, hgeneration, fun hphase ↦ ⟨hopen m x held hmn hx hk hphase, ?_⟩⟩
            · rw [hwrites]
              exact contentOf_setPhase hcontent
            · rw [hchange]
              exact (hunfinished hphase).2
      cases kind with
      | snapshot =>
        have hle : s.written ≤ generation := hsound.locked rfl rfl
        have hself : ({ generation, content, kind := .snapshot, phase := .returned true } :
            Write) ∈ (s.setPhase n (.returned true)).writes := by
          refine List.mem_of_getElem? (i := n) ?_
          simp [setPhase, hw]
        refine ⟨hsorted, hfresh, ?_, contentOf_setPhase h.content, ?_, ?_, nofun, ?_, halone, ?_⟩
        · intro x hx ha
          rcases mem_setPhase hw hx with rfl | hx
          · exact ⟨generation, hheld, Nat.le_refl _⟩
          · exact h.covered x hx ha
        · intro x hx ha
          rcases mem_setPhase hw hx with rfl | hx
          · exact Nat.le_refl _
          · exact Nat.le_trans (h.below x hx ha) hle
        · exact fun _ ↦ Or.inr ⟨_, hself, rfl, rfl⟩
        · exact hwrites _ rfl rfl fun _ _ _ _ _ _ _ ↦ nofun
        · intro c hc state held hread
          obtain ⟨hcontent, hgeneration, -⟩ := h.change c hc state held hread
          exact ⟨contentOf_setPhase hcontent, hgeneration, nofun⟩
      | rollback held =>
        obtain ⟨hheld, hbelow⟩ := hheld
        obtain ⟨-, hgeneration, hunfinished⟩ := hsound.rollback held rfl
        have hchange := (hunfinished nofun).2
        have hacked : ∀ x ∈ (s.setPhase n (.returned true)).writes, x.acked = true →
            x ∈ s.writes := by
          intro x hx ha
          rcases mem_setPhase hw hx with rfl | hx
          · simp [Write.acked] at ha
          · exact hx
        refine ⟨hsorted, hfresh, fun x hx ha ↦ h.covered x (hacked x hx ha) ha,
          contentOf_setPhase h.content,
          fun x hx ha ↦ Nat.le_of_lt (hbelow x (hacked x hx ha) ha), nofun, ?_, ?_, halone, ?_⟩
        · intro f hfence
          obtain rfl := Option.some.inj hfence
          refine ⟨fun k hk ↦ ⟨k, ?_, Nat.le_refl k⟩, fun k hk ↦ Nat.le_of_lt (hgeneration k hk)⟩
          exact hheld.trans hk
        · refine hwrites _ rfl rfl fun m x held' hmn hx hk hphase ↦ ?_
          have hother := (((h.writes m x hx).rollback held' hk).2.2 hphase).2
          rw [hchange] at hother
          exact absurd (ChangePhase.undoing.inj (Option.some.inj hother)).symm hmn
        · intro c hc state held' hread
          change s.change = some c at hc
          rw [hc, Option.map_some, Option.some.injEq] at hchange
          rw [hchange] at hread
          cases hread
    · exact sound_setPhase h hw hunacked nofun nofun nofun nofun (Or.inl ⟨false, rfl⟩)
  · exact h

/-- While the change is not undoing its write, no rollback is under way. -/
theorem no_rollback (h : s.Sound initial)
    (hphase : ∀ n, s.change.map Change.phase ≠ some (.undoing n)) {P : Nat → Prop} :
    ∀ (n : Nat) (w : Write) (held : Option Nat), s.writes[n]? = some w →
      w.kind = .rollback held → (∀ ok, w.phase ≠ .returned ok) → P n :=
  fun n w held hw hk hopen ↦ absurd (((h.writes n w hw).rollback held hk).2.2 hopen).2 (hphase n)

private theorem held_lt (h : s.Sound initial) {k : Nat} (hk : s.held = some k) :
    k < s.generation := by
  have hcontent := h.content
  rw [hk] at hcontent
  obtain ⟨w, hw, -, rfl, -⟩ := hcontent
  exact h.fresh w hw

private theorem sound_save (h : s.Sound initial) (bytes : Bytes) : (s.save bytes).Sound initial :=
  sound_enqueue h s.change nofun
    (fun n w held hw hk hopen ↦ (((h.writes n w hw).rollback held hk).2.2 hopen).2) h.change

private theorem sound_saveGatewayChange (h : s.Sound initial) (state endpoint : Bytes) :
    (s.saveGatewayChange state endpoint).Sound initial := by
  unfold saveGatewayChange
  split
  · next hnone =>
    have hchange : s.change = none := Option.isNone_iff_eq_none.mp hnone
    refine sound_change h s.endpoint _ (no_rollback h (by simp [hchange])) ?_
    rintro c hc state held hread
    obtain rfl := Option.some.inj hc
    cases hread
  · exact h

private theorem sound_advance (h : s.Sound initial) (io : Io) : (s.advance io).Sound initial := by
  unfold advance
  split
  · exact h
  · next c hc =>
    have hread := h.change c hc
    -- What a later phase has read is what the present one has.
    have hmove : (∀ n, c.phase ≠ .undoing n) → ∀ (endpoint : Option Bytes) (phase : ChangePhase),
        (∀ state held, readBy phase = some (state, held) → readBy c.phase = some (state, held) ∨
          state = s.file ∧ held = s.held) →
        ({ s with endpoint, change := some { c with phase } } : StateStore).Sound initial := by
      intro hphase endpoint phase hsame
      refine sound_change h endpoint _ (no_rollback h (by simp [hc, hphase])) ?_
      rintro c' hc' state held hread'
      obtain rfl := Option.some.inj hc'
      rcases hsame state held hread' with hold | ⟨rfl, rfl⟩
      · exact hread state held hold
      · exact ⟨h.content, fun k hk ↦ held_lt h hk, fun f hf ↦ (h.fence f hf).1⟩
    have hrelease : (∀ n, c.phase ≠ .undoing n) → s.release.Sound initial := fun hphase ↦
      sound_change h s.endpoint none (no_rollback h (by simp [hc, hphase])) nofun
    split
    · next hphase =>
      split
      · refine hmove (by simp [hphase]) s.endpoint _ fun state held hr ↦ Or.inr ?_
        exact ⟨(Prod.mk.inj (Option.some.inj hr)).1.symm, (Prod.mk.inj (Option.some.inj hr)).2.symm⟩
      · exact hrelease (by simp [hphase])
    · next state held hphase =>
      split
      · exact hmove (by simp [hphase]) s.endpoint _ fun _ _ hr ↦ Or.inl (by rw [hphase]; exact hr)
      · exact hrelease (by simp [hphase])
    · next old hphase =>
      refine hmove (by simp [hphase]) _ _ fun _ _ hr ↦ Or.inl ?_
      rw [hphase]
      split at hr <;> exact hr
    · next old hphase =>
      split
      · refine sound_enqueue h _ nofun (no_rollback h (by simp [hc, hphase])) ?_
        rintro c' hc' state held hr
        obtain rfl := Option.some.inj hc'
        exact hread state held (by rw [hphase]; exact hr)
      · exact hmove (by simp [hphase]) s.endpoint _ fun _ _ hr ↦ Or.inl (by rw [hphase]; exact hr)
    · next old n hphase =>
      split
      · exact hrelease (by simp [hphase])
      · exact hmove (by simp [hphase]) s.endpoint _ fun _ _ hr ↦ Or.inl (by rw [hphase]; exact hr)
      · exact h
    · next old hphase =>
      exact hmove (by simp [hphase]) _ _ fun _ _ hr ↦ Or.inl (by rw [hphase]; exact hr)
    · next old hphase =>
      split
      · split
        · exact hrelease (by simp [hphase])
        · obtain ⟨hcontent, hgeneration, hfence⟩ := hread old.state old.held (by rw [hphase]; rfl)
          refine sound_enqueue h _ ?_ (no_rollback h (by simp [hc, hphase])) ?_
          · intro held hk
            obtain rfl := WriteKind.rollback.inj hk
            exact ⟨hcontent, hgeneration, hfence, rfl⟩
          · rintro c' hc' state held hr
            obtain rfl := Option.some.inj hc'
            cases hr
      · exact hrelease (by simp [hphase])
    · next n hphase =>
      split
      · next ok hreturned =>
        -- The rollback has returned, so none is under way.
        refine sound_change h s.endpoint none (fun m w held hw hk hopen ↦ ?_) nofun
        have hundoing := (((h.writes m w hw).rollback held hk).2.2 hopen).2
        rw [hc, Option.map_some, hphase, Option.some.injEq, ChangePhase.undoing.injEq] at hundoing
        subst hundoing
        rw [hw, Option.map_some, Option.some.injEq] at hreturned
        exact absurd hreturned (hopen ok)
      · exact h

/-- Every fenced step keeps what the store relies on. -/
theorem sound_step (s : StateStore) (op : Op) (h : s.Sound initial) (hf : s.Fenced op) :
    (s.step op).Sound initial := by
  cases op with
  | save bytes => exact sound_save h bytes
  | persist bytes =>
    simp only [step, persist]
    split
    · exact sound_save h bytes
    · exact h
  | saveGatewayChange state endpoint => exact sound_saveGatewayChange h state endpoint
  | advance io => exact sound_advance h io
  | lock n => exact sound_lock h hf
  | rename n ok => exact sound_rename h hf
  | finish n ok => exact sound_finish h n ok

end Steps

section Runs

variable {initial : Option Bytes}

private theorem sound_new (initial endpoint : Option Bytes) :
    (new initial endpoint).Sound initial where
  sorted := .nil
  fresh := nofun
  covered := nofun
  content := rfl
  below := nofun
  recorded := fun _ ↦ Or.inl rfl
  fence := nofun
  writes := nofun
  alone := nofun
  change := nofun

private theorem Sound.durable {s : StateStore} (h : s.Sound initial) : s.Durable := by
  intro w hw hacked
  obtain ⟨k, hk, hle⟩ := h.covered w hw hacked
  have hcontent := h.content
  rw [hk] at hcontent
  obtain ⟨w', hw', hkind, rfl, hfile⟩ := hcontent
  exact ⟨w', hw', hkind, hle, hfile⟩

/-- The rollback of a failed change is about to replace the file. -/
def RollsBack (s : StateStore) : Op → Prop
  | .rename n true => ∃ w ∈ s.writes[n]?, w.phase = .locked ∧ ∃ held, w.kind = .rollback held
  | _ => False

private theorem eq_of_generation {s : StateStore} (h : s.Sound initial) {w w' : Write}
    (hw : w ∈ s.writes) (hw' : w' ∈ s.writes) (heq : w.generation = w'.generation) : w = w' :=
  List.inj_on_of_nodup_map (h.sorted.imp fun hlt ↦ Nat.ne_of_lt hlt) hw hw' heq

private theorem Sound.restored {s : StateStore} (h : s.Sound initial) {op : Op} (hf : s.Fenced op)
    (hop : s.RollsBack op) : HoldsNewest initial (s.step op) := by
  cases op with
  | rename n ok =>
    cases ok with
    | false => exact hop.elim
    | true =>
      obtain ⟨w, hw, hphase, held, hkind⟩ := hop
      obtain ⟨generation, content, kind, phase⟩ := w
      dsimp only at hphase hkind
      subst hphase hkind
      have hget : s.writes[n]? = some ⟨generation, content, .rollback held, .locked⟩ := hw
      obtain ⟨hcontent, -, -⟩ := (h.writes n _ hget).rollback held rfl
      have hcond := hf _ hget rfl held rfl
      have hstep : s.step (.rename n true) =
          { s.setPhase n .renamed with file := content, held } := by
        simp only [step, rename, hget, if_true]
      rw [hstep]
      have hacked : ∀ x ∈ (s.setPhase n .renamed).writes, x.acked = true → x ∈ s.writes :=
        fun x hx ha ↦ acked_setPhase hget WritePhase.noConfusion hx ha
      cases held with
      | none =>
        right
        refine ⟨fun x hx ↦ ?_, hcontent⟩
        by_contra ha
        rw [Bool.not_eq_false] at ha
        obtain ⟨k, hk, -⟩ := hcond.1 x (hacked x hx ha) ha
        cases hk
      | some k =>
        left
        obtain ⟨a, ha, hack, hgen⟩ := hcond.2 k rfl
        obtain ⟨b, hb, -, hbgen, hbcontent⟩ := hcontent
        obtain rfl := eq_of_generation h ha hb (hgen.trans hbgen.symm)
        refine ⟨a, acked_of_setPhase hget (by simp [Write.acked]) ha hack, hack, hbcontent, ?_⟩
        intro x hx hxa
        obtain ⟨k', hk', hle⟩ := hcond.1 x (hacked x hx hxa) hxa
        obtain rfl := Option.some.inj hk'
        rw [hgen]
        exact hle
  | save => exact hop.elim
  | persist => exact hop.elim
  | saveGatewayChange => exact hop.elim
  | advance => exact hop.elim
  | lock => exact hop.elim
  | finish => exact hop.elim

/-- What is expected of a run: acknowledged snapshots stay, and every rollback restores the
newest of them. -/
def NeverUndone (initial endpoint : Option Bytes) (ops : List Op) : Prop :=
  (run step (new initial endpoint) ops).Durable ∧
    ∀ n op, ops[n]? = some op → (run step (new initial endpoint) (ops.take n)).RollsBack op →
      HoldsNewest initial (run step (new initial endpoint) (ops.take (n + 1)))

/-- In every run of fenced steps acknowledged snapshots stay. -/
theorem never_undone (initial endpoint : Option Bytes) {ops : List Op}
    (h : EveryStep step Fenced (new initial endpoint) ops) : NeverUndone initial endpoint ops := by
  have hrun : ∀ {ops : List Op}, EveryStep step Fenced (new initial endpoint) ops →
      (run step (new initial endpoint) ops).Sound initial :=
    fun hops ↦ run_invariant sound_step (sound_new initial endpoint) hops
  refine ⟨(hrun h).durable, fun n op hop hrolls ↦ ?_⟩
  rw [List.take_add_one, hop, Option.toList_some, run_concat]
  exact (hrun (h.take n)).restored (h.at hop) hrolls

instance (s : StateStore) : ∀ op, Decidable (s.Fenced op)
  | .rename n true => inferInstanceAs (Decidable
      (∀ w ∈ s.writes[n]?, w.phase = .locked → ∀ held ∈ restores w.kind,
        (∀ a ∈ s.writes, a.acked = true → ∃ k ∈ held, a.generation ≤ k) ∧
          ∀ k ∈ held, ∃ a ∈ s.writes, a.acked = true ∧ a.generation = k))
  | .lock n => inferInstanceAs (Decidable
      (∀ w ∈ s.writes[n]?, w.kind = .snapshot → w.phase = .waiting → w.generation < s.written →
        ∀ held ∈ s.fence, ∃ k ∈ held, w.generation ≤ k))
  | .rename _ false | .save _ | .persist _ | .saveGatewayChange _ _ | .advance _ | .finish _ _ =>
    inferInstanceAs (Decidable True)

instance (s : StateStore) : Decidable s.Durable :=
  inferInstanceAs (Decidable (∀ w ∈ s.writes, _ → ∃ w' ∈ s.writes, _ ∧ _ ∧ _))

/-- A saved snapshot, a gateway change that fails after its rename and is rolled back, and a
snapshot that waited behind a newer one. -/
def fencedRun : List Op :=
  [.save [1], .lock 0, .rename 0 true, .finish 0 true,
    .saveGatewayChange [2] [7], .advance .ok, .advance .ok, .advance .ok, .advance .ok,
    .lock 1, .rename 1 true, .finish 1 false, .advance .ok, .advance .ok, .advance .ok,
    .lock 2, .rename 2 true, .finish 2 true, .advance .ok,
    .persist [3], .persist [4], .lock 4, .rename 4 true, .finish 4 true, .lock 3]

/-- Snapshots, a change and its rollback one after the other. -/
theorem never_undone_sample :
    EveryStep step Fenced (new (some [0]) none) fencedRun ∧
      NeverUndone (some [0]) none fencedRun ∧
      (run step (new (some [0]) none) (fencedRun.take 17)).file = some [1] ∧
      (run step (new (some [0]) none) fencedRun).file = some [4] := by
  have hfenced : EveryStep step Fenced (new (some [0]) none) fencedRun := by decide +kernel
  exact ⟨hfenced, never_undone (some [0]) none hfenced, by decide +kernel, by decide +kernel⟩

/-- A snapshot that was serialised before the gateway change is written and acknowledged after
the change has read the file. -/
def overwrittenRun : List Op :=
  [.persist [1], .saveGatewayChange [2] [7], .advance .ok, .advance .ok,
    .lock 0, .rename 0 true, .finish 0 true, .advance .ok, .advance .ok, .lock 1,
    .rename 1 false, .advance .ok, .advance .ok, .advance .ok, .lock 2, .rename 2 true]

/-- A snapshot that was serialised before the gateway change gets the lock after the rollback. -/
def skippedRun : List Op :=
  [.persist [1], .saveGatewayChange [2] [7], .advance .ok, .advance .ok, .advance .ok,
    .advance .ok, .lock 1, .rename 1 true, .finish 1 false, .advance .ok, .advance .ok,
    .advance .ok, .lock 2, .rename 2 true, .finish 2 true, .advance .ok, .lock 0]

/-- A rollback and a skipped write each undo a snapshot. -/
theorem undone_by_rollback :
    ¬NeverUndone (some [0]) none overwrittenRun ∧ ¬NeverUndone (some [0]) none skippedRun := by
  constructor
  · intro h
    have hdurable := h.1
    revert hdurable
    decide +kernel
  · intro h
    have hdurable := h.1
    revert hdurable
    decide +kernel

end Runs

end Agent.StateStore
