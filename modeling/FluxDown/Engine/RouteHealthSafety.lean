import FluxDown.Base.Indexed
import FluxDown.Engine.RouteHealth

/-!
# The newest snapshot is stored

Library `Engine`. The row of the database has the table as it was changed last, once all calls have
returned and all writes have ended, in runs whose snapshots get their numbers in the order in which
they are taken and whose writes reach the database in the order of their numbers. Nothing in the code
keeps either order.
-/

namespace Engine.RouteHealth

open Base Cdn

variable {F : Type}

/-! ## What is promised -/

/-- The call has returned. -/
def Phase.isReturned : Phase F → Bool
  | .returned => true
  | _ => false

/-- The snapshot that gets its number next. -/
def Phase.numbering : Phase F → Option Nat
  | .number version _ => some version
  | _ => none

namespace System

/-- All calls have returned and all writes have ended, none of them with an error. -/
def Settled (s : System F) : Prop :=
  (∀ call ∈ s.calls, call.2.isReturned = true) ∧
    ∀ w ∈ s.writes, w.phase = .dropped ∨ w.phase = .stored

instance (s : System F) : Decidable s.Settled := inferInstanceAs (Decidable (_ ∧ _))

/-- After a change the row has the table. -/
def Newest (s : System F) : Prop :=
  s.version ≠ 0 → ∃ file, s.stored = some file ∧ file.hosts = s.table

/-- No later snapshot has a number when a snapshot gets one, and no later write is stored when a
write is. -/
def InOrder (s : System F) : Op F → Prop
  | .begin _ => True
  | .advance call _ _ _ => ∀ version ∈ s.calls[call]?.bind fun call ↦ call.2.numbering,
    ∀ w ∈ s.writes, w.version < version
  | .write index ok => ok = true → ∀ w ∈ s.writes[index]?, w.phase = .checked →
    ∀ other ∈ s.writes, other.phase = .stored → other.seq < w.seq

instance (s : System F) : DecidablePred s.InOrder
  | .begin _ => inferInstanceAs (Decidable True)
  | .advance _ _ _ _ => inferInstanceAs (Decidable (∀ _ ∈ _, _))
  | .write _ _ => inferInstanceAs (Decidable (_ → _))

/-- The step does not change the table for a record. -/
def NoRecord (s : System F) : Op F → Prop
  | .advance call _ _ _ => ∀ kind, s.calls[call]? = some (kind, .change) →
    kind = .clearAll ∨ ∃ host, kind = .clearProxy host
  | _ => True

end System

/-! ## What calls hold -/

/-- The call has yet to take the snapshot of its change. -/
def Phase.owes : Phase F → Bool
  | .ensure => true
  | .clearSystem => true
  | .change => true
  | .readNet => true
  | .snapshot _ => true
  | _ => false

/-- The snapshot of a call that has no number yet. -/
def Phase.held : Phase F → Option (Nat × Routes F)
  | .readCleared version => some (version, .empty)
  | .readSys _ version hosts => some (version, hosts)
  | .number version file => some (version, file.hosts)
  | _ => none

/-- Where a call stands is in accordance with the table. -/
structure Phase.Sound (phase : Phase F) (version : Nat) (table : Routes F) : Prop where
  held : ∀ v hosts, phase.held = some (v, hosts) → v ≤ version ∧ (v = version → hosts = table)

namespace System

/-- What holds in runs whose snapshots and writes keep their order. -/
structure Ordered (s : System F) : Prop where
  net : s.net ≠ ""
  calls : ∀ call ∈ s.calls, call.2.Sound s.version s.table
  seqs : s.writes.map Write.seq = List.range' 1 s.seq
  versions : (s.writes.map Write.version).Pairwise (· < ·)
  latest : ∀ w ∈ s.writes, w.version ≤ s.version ∧ (w.version = s.version → w.file.hosts = s.table)
  covered : s.version ≠ 0 → (∃ call ∈ s.calls, call.2.owes = true) ∨
    (∃ call ∈ s.calls, ∃ hosts, call.2.held = some (s.version, hosts)) ∨
      ∃ w ∈ s.writes, w.version = s.version
  dropped : ∀ w ∈ s.writes, w.phase = .dropped → w.seq < s.seq
  stored : ∀ w ∈ s.writes, w.phase = .stored →
    (∀ other ∈ s.writes, other.phase = .stored → other.seq ≤ w.seq) → s.stored = some w.file

private theorem ordered_start (table : Routes F) {net : String} (hnet : net ≠ "") (sys : String)
    (stored : Option (RouteFile F)) : (start table net sys stored).Ordered where
  net := hnet
  calls _ hcall := absurd hcall List.not_mem_nil
  seqs := rfl
  versions := List.Pairwise.nil
  latest _ hw := absurd hw List.not_mem_nil
  covered h := absurd rfl h
  dropped _ hw := absurd hw List.not_mem_nil
  stored _ hw := absurd hw List.not_mem_nil

section Numbers

variable {s : System F}

private theorem Ordered.length (h : s.Ordered) : s.writes.length = s.seq := by
  rw [← List.length_map Write.seq, h.seqs, List.length_range']

private theorem Ordered.seq_eq (h : s.Ordered) {k : Nat} {w : Write F}
    (hw : s.writes[k]? = some w) :
    w.seq = k + 1 := by
  obtain ⟨hlt, -⟩ := List.getElem?_eq_some_iff.mp hw
  have hseq : (s.writes.map Write.seq)[k]? = some w.seq := by rw [List.getElem?_map, hw, Option.map_some]
  rw [h.seqs, List.getElem?_range' (h.length ▸ hlt)] at hseq
  have heq := Option.some.inj hseq
  omega

private theorem Ordered.seq_le (h : s.Ordered) {w : Write F} (hw : w ∈ s.writes) :
    w.seq ≤ s.seq := by
  obtain ⟨k, hk⟩ := List.mem_iff_getElem?.mp hw
  obtain ⟨hlt, -⟩ := List.getElem?_eq_some_iff.mp hk
  rw [h.seq_eq hk, ← h.length]
  omega

/-- The write with the snapshot of the last change has the last number. -/
theorem Ordered.seq_of_version (h : s.Ordered) {w : Write F} (hw : w ∈ s.writes)
    (hlast : w.version = s.version) : w.seq = s.seq := by
  obtain ⟨k, hk⟩ := List.mem_iff_getElem?.mp hw
  obtain ⟨hlt, hget⟩ := List.getElem?_eq_some_iff.mp hk
  rw [h.seq_eq hk, ← h.length]
  by_contra hne
  -- A write after this one would have a later snapshot.
  have hnext : k + 1 < s.writes.length := by omega
  have hless := List.pairwise_iff_getElem.mp (List.pairwise_map.mp h.versions) k (k + 1) hlt hnext
    (Nat.lt_succ_self k)
  rw [hget, hlast] at hless
  exact absurd hless (Nat.not_lt.mpr (h.latest _ (List.getElem_mem hnext)).1)

end Numbers

section Step

variable {s : System F} {i : Nat} {kind : Call F} {phase : Phase F}

/-- A call goes on without the table. -/
theorem Ordered.move (h : s.Ordered) (hcall : s.calls[i]? = some (kind, phase))
    (phase' : Phase F) (hheld : phase'.held = phase.held) (howes : phase.owes = true → phase'.owes = true)
    (sys : String) :
    Ordered { s with sys, calls := s.calls.modify i fun _ ↦ (kind, phase') } where
  net := h.net
  calls call hmem := by
    rcases mem_modify hcall hmem with rfl | hmem
    · have hsound := h.calls _ (List.mem_of_getElem? hcall)
      exact ⟨fun v hosts hv ↦ hsound.held v hosts (hheld ▸ hv)⟩
    · exact h.calls call hmem
  seqs := h.seqs
  versions := h.versions
  latest := h.latest
  covered hversion := by
    rcases h.covered hversion with howed | hholds | hwritten
    · exact .inl (exists_mem_modify hcall howes howed)
    · refine .inr (.inl (exists_mem_modify hcall ?_ hholds))
      rintro ⟨hosts, hsame⟩
      exact ⟨hosts, hheld.trans hsame⟩
    · exact .inr (.inr hwritten)
  dropped := h.dropped
  stored := h.stored

/-- A call changes the table; it owes a snapshot or has taken it. -/
theorem Ordered.change (h : s.Ordered) (hcall : s.calls[i]? = some (kind, phase))
    (phase' : Phase F) {table : Routes F} (hnext : (phase'.owes = true ∧ phase'.held = none) ∨
      phase'.held = some (s.version + 1, table)) :
    Ordered { s.withTable table with calls := s.calls.modify i fun _ ↦ (kind, phase') } where
  net := h.net
  calls call hmem := by
    rcases mem_modify hcall hmem with rfl | hmem
    · refine ⟨fun v hosts hv ↦ ?_⟩
      rcases hnext with ⟨-, hnone⟩ | hsome
      · rw [hnone] at hv
        cases hv
      · rw [hsome] at hv
        cases hv
        exact ⟨Nat.le_refl _, fun _ ↦ rfl⟩
    · refine ⟨fun v hosts hv ↦ ?_⟩
      have hle := ((h.calls call hmem).held v hosts hv).1
      refine ⟨Nat.le_succ_of_le hle, fun hsame ↦ ?_⟩
      have hsame' : v = s.version + 1 := hsame
      omega
  seqs := h.seqs
  versions := h.versions
  latest w hw := by
    have hle := (h.latest w hw).1
    refine ⟨Nat.le_succ_of_le hle, fun hsame ↦ ?_⟩
    have hsame' : w.version = s.version + 1 := hsame
    omega
  covered _ := by
    have hmem : (kind, phase') ∈ s.calls.modify i fun _ ↦ (kind, phase') := mem_modify_self hcall
    rcases hnext with ⟨howes, -⟩ | hsome
    · exact .inl ⟨_, hmem, howes⟩
    · exact .inr (.inl ⟨_, hmem, table, hsome⟩)
  dropped := h.dropped
  stored := h.stored

/-- A snapshot gets its number; no later one has a number yet. -/
theorem Ordered.number (h : s.Ordered) {version : Nat} {file : RouteFile F}
    (hcall : s.calls[i]? = some (kind, .number version file))
    (horder : ∀ w ∈ s.writes, w.version < version) :
    Ordered { s with
      seq := s.seq + 1
      writes := s.writes ++ [⟨s.seq + 1, version, file, .spawned⟩]
      calls := s.calls.modify i fun _ ↦ (kind, .returned) } where
  net := h.net
  calls call hmem := by
    rcases mem_modify hcall hmem with rfl | hmem
    · exact ⟨fun v hosts hv ↦ by cases hv⟩
    · exact h.calls call hmem
  seqs := by
    show (s.writes ++ [_]).map Write.seq = List.range' 1 (s.seq + 1)
    rw [List.map_append, h.seqs, List.range'_concat, Nat.one_mul, Nat.add_comm 1]
    rfl
  versions := by
    rw [List.map_append, List.pairwise_append]
    refine ⟨h.versions, List.pairwise_singleton _ _, fun v hv v' hv' ↦ ?_⟩
    obtain ⟨w, hw, rfl⟩ := List.mem_map.mp hv
    rw [List.mem_singleton.mp hv']
    exact horder w hw
  latest w hw := by
    rcases List.mem_append.mp hw with hw | hw
    · exact h.latest w hw
    · rw [List.mem_singleton.mp hw]
      exact (h.calls _ (List.mem_of_getElem? hcall)).held version file.hosts rfl
  covered hversion := by
    rcases h.covered hversion with howed | hholds | ⟨w, hw, hsame⟩
    · exact .inl (exists_mem_modify hcall (fun howes ↦ by cases howes) howed)
    · by_cases hsame : version = s.version
      · exact .inr (.inr ⟨_, List.mem_append_right _ (List.mem_singleton_self _), hsame⟩)
      · refine .inr (.inl (exists_mem_modify hcall ?_ hholds))
        rintro ⟨hosts, hheld⟩
        exact absurd (Prod.mk.inj (Option.some.inj hheld)).1 hsame
    · exact .inr (.inr ⟨w, List.mem_append_left _ hw, hsame⟩)
  dropped w hw hdropped := by
    rcases List.mem_append.mp hw with hw | hw
    · exact Nat.lt_succ_of_lt (h.dropped w hw hdropped)
    · rw [List.mem_singleton.mp hw] at hdropped
      cases hdropped
  stored w hw hstored hmax := by
    rcases List.mem_append.mp hw with hw | hw
    · exact h.stored w hw hstored fun other hother ↦ hmax other (List.mem_append_left _ hother)
    · rw [List.mem_singleton.mp hw] at hstored
      cases hstored

private theorem seqs_setWrite (s : System F) (i : Nat) (phase : WritePhase) :
    (s.setWrite i phase).writes.map Write.seq = s.writes.map Write.seq :=
  @map_modify_of_view _ _ (fun w : Write F ↦ { w with phase }) _ (fun _ ↦ rfl) s.writes i

private theorem versions_setWrite (s : System F) (i : Nat) (phase : WritePhase) :
    (s.setWrite i phase).writes.map Write.version = s.writes.map Write.version :=
  @map_modify_of_view _ _ (fun w : Write F ↦ { w with phase }) _ (fun _ ↦ rfl) s.writes i

/-- A write goes on to a phase; what is stored is shown apart. -/
theorem Ordered.setWrite (h : s.Ordered) {w : Write F} (hw : s.writes[i]? = some w)
    {phase : WritePhase} (hdropped : phase = .dropped → w.seq < s.seq) (stored : Option (RouteFile F))
    (hstored : ∀ other ∈ (s.setWrite i phase).writes, other.phase = .stored →
      (∀ third ∈ (s.setWrite i phase).writes, third.phase = .stored → third.seq ≤ other.seq) →
        stored = some other.file) :
    Ordered { s.setWrite i phase with stored } where
  net := h.net
  calls := h.calls
  seqs := (seqs_setWrite s i phase).trans h.seqs
  versions := by
    show ((s.setWrite i phase).writes.map Write.version).Pairwise _
    rw [versions_setWrite]
    exact h.versions
  latest other hother := by
    rcases mem_modify hw hother with rfl | hother
    · exact h.latest w (List.mem_of_getElem? hw)
    · exact h.latest other hother
  covered hversion := by
    rcases h.covered hversion with howed | hheld | hwritten
    · exact .inl howed
    · exact .inr (.inl hheld)
    · exact .inr (.inr (exists_mem_modify hw (fun hsame ↦ hsame) hwritten))
  dropped other hother hphase := by
    rcases mem_modify hw hother with rfl | hother
    · exact hdropped hphase
    · exact h.dropped other hother hphase
  stored := hstored

/-- A write that is not stored leaves the row alone. -/
theorem Ordered.goOn (h : s.Ordered) {w : Write F} (hw : s.writes[i]? = some w)
    (hfresh : w.phase ≠ .stored) {phase : WritePhase} (hphase : phase ≠ .stored)
    (hdropped : phase = .dropped → w.seq < s.seq) : (s.setWrite i phase).Ordered := by
  apply h.setWrite hw hdropped s.stored
  intro other hother hstored hmax
  rcases mem_modify hw hother with rfl | hother
  · exact absurd hstored hphase
  · apply h.stored other hother hstored
    intro third hthird hstored'
    refine hmax third (mem_modify_of_ne hw hthird ?_) hstored'
    rintro rfl
    exact hfresh hstored'

/-- A write is stored; no later one is stored yet. -/
theorem Ordered.store (h : s.Ordered) {w : Write F} (hw : s.writes[i]? = some w)
    (horder : ∀ other ∈ s.writes, other.phase = .stored → other.seq < w.seq) :
    Ordered { s.setWrite i .stored with stored := some w.file } := by
  apply h.setWrite hw (fun hphase ↦ by cases hphase)
  intro other hother hstored hmax
  rcases mem_modify hw hother with rfl | hother
  · rfl
  · have hless := horder other hother hstored
    have hle := hmax _ (mem_modify_self hw) rfl
    exact absurd hless (Nat.not_lt.mpr hle)

end Step

section Run

variable [Estimate F] {s : System F}

private theorem Ordered.begin (h : s.Ordered) (call : Call F) : (s.step (.begin call)).Ordered where
  net := h.net
  calls other hmem := by
    rcases List.mem_append.mp hmem with hmem | hmem
    · exact h.calls other hmem
    · rw [List.mem_singleton.mp hmem]
      refine ⟨fun v hosts hv ↦ ?_⟩
      have hnone : call.first.held = none := by
        unfold Call.first
        cases call with
        | pathRate host route bps => dsimp only; split <;> rfl
        | pathFailure host route => dsimp only; split <;> rfl
        | _ => rfl
      rw [hnone] at hv
      cases hv
  seqs := h.seqs
  versions := h.versions
  latest := h.latest
  covered hversion := by
    rcases h.covered hversion with ⟨other, hmem, howes⟩ | ⟨other, hmem, hheld⟩ | hwritten
    · exact .inl ⟨other, List.mem_append_left _ hmem, howes⟩
    · exact .inr (.inl ⟨other, List.mem_append_left _ hmem, hheld⟩)
    · exact .inr (.inr hwritten)
  dropped := h.dropped
  stored := h.stored

/-- A call takes its next step. -/
theorem Ordered.advance (h : s.Ordered) {call now : Nat} {sys : String} {order : List String}
    (horder : s.InOrder (.advance call now sys order)) :
    (s.step (.advance call now sys order)).Ordered := by
  unfold step
  dsimp only
  cases hcall : s.calls[call]? with
  | none => exact h
  | some entry =>
    obtain ⟨kind, phase⟩ := entry
    dsimp only
    cases phase with
    | ensure =>
      unfold advanceCall
      dsimp only
      split
      · exact h.move hcall .change rfl (fun _ ↦ rfl) s.sys
      · by_cases hnone : s.sys = ""
        · rw [if_pos hnone]
          exact h.move hcall .change rfl (fun _ ↦ rfl) sys
        · rw [if_neg hnone]
          exact h.move hcall .clearSystem rfl (fun _ ↦ rfl) sys
    | clearSystem => exact h.change hcall .change (.inl ⟨rfl, rfl⟩)
    | change =>
      cases kind with
      | clearAll => exact h.change hcall (.readCleared (s.version + 1)) (.inr rfl)
      | _ => exact h.change hcall .readNet (.inl ⟨rfl, rfl⟩)
    | readNet =>
      unfold advanceCall
      dsimp only
      rw [if_neg h.net]
      exact h.move hcall (.snapshot s.net) rfl (fun _ ↦ rfl) s.sys
    | snapshot net =>
      exact h.change hcall (.readSys net (s.version + 1) (prune s.table now order)) (.inr rfl)
    | readCleared version =>
      exact h.move hcall (.readSys s.net version .empty) rfl (fun howes ↦ by cases howes) s.sys
    | readSys net version hosts =>
      exact h.move hcall (.number version ⟨routeFormatVersion, net, s.sys, hosts⟩) rfl
        (fun howes ↦ by cases howes) s.sys
    | number version file =>
      apply h.number hcall
      apply horder version
      rw [hcall]
      rfl
    | returned => exact h.move hcall .returned rfl (fun howes ↦ by cases howes) s.sys

/-- A write takes its next step. -/
theorem Ordered.write (h : s.Ordered) {index : Nat} {ok : Bool}
    (horder : s.InOrder (.write index ok)) : (s.step (.write index ok)).Ordered := by
  unfold step
  dsimp only
  cases hw : s.writes[index]? with
  | none => exact h
  | some w =>
    dsimp only
    unfold advanceWrite
    split
    · next hphase =>
      have hfresh : w.phase ≠ .stored := by
        rw [hphase]
        decide
      split
      · exact h.goOn hw hfresh (by decide) (fun hdropped ↦ by cases hdropped)
      · next hnewer =>
        apply h.goOn hw hfresh (by decide)
        intro _
        exact Nat.lt_of_le_of_ne (h.seq_le (List.mem_of_getElem? hw)) (Ne.symm hnewer)
    · next hphase =>
      split
      · next hok => exact h.store hw (horder hok w hw hphase)
      · apply h.goOn hw ?_ (by decide) (fun hdropped ↦ by cases hdropped)
        rw [hphase]
        decide
    · exact h

private theorem ordered_step (h : s.Ordered) (op : Op F) (horder : s.InOrder op) :
    (s.step op).Ordered := by
  cases op with
  | begin call => exact h.begin call
  | advance call now sys order => exact h.advance horder
  | write index ok => exact h.write horder

end Run

/-- Once all has ended, the last write has the last snapshot and was stored last. -/
theorem Ordered.newest {s : System F} (h : s.Ordered) (hsettled : s.Settled) : s.Newest := by
  intro hversion
  have hwritten : ∃ w ∈ s.writes, w.version = s.version := by
    rcases h.covered hversion with ⟨call, hcall, howes⟩ | ⟨call, hcall, hosts, hheld⟩ | hwritten
    · have hreturned := hsettled.1 call hcall
      revert howes hreturned
      cases call.2 <;> simp [Phase.owes, Phase.isReturned]
    · have hreturned := hsettled.1 call hcall
      revert hheld hreturned
      cases call.2 <;> simp [Phase.held, Phase.isReturned]
    · exact hwritten
  obtain ⟨w, hw, hlast⟩ := hwritten
  have hseq := h.seq_of_version hw hlast
  have hstored : w.phase = .stored := by
    rcases hsettled.2 w hw with hdropped | hstored
    · exact absurd hseq (Nat.ne_of_lt (h.dropped w hw hdropped))
    · exact hstored
  refine ⟨w.file, h.stored w hw hstored fun other hother _ ↦ ?_, (h.latest w hw).2 hlast⟩
  rw [hseq]
  exact h.seq_le hother

/-! ## Without records the table stays empty -/

section Empty

variable [Estimate F]

private theorem prune_empty (now : Nat) (order : List String) :
    prune (.empty : Routes F) now order = .empty := by
  unfold prune
  exact if_pos (Nat.zero_le _)

omit [Estimate F] in
private theorem clearSystem_empty : RouteHealth.clearSystem (.empty : Routes F) = .empty := rfl

/-- A file without hosts is loaded as an empty table. -/
theorem load_of_empty {file : RouteFile F} (h : file.hosts = .empty) (net sys : String) (now : Nat)
    (order : List String) : load (some file) net sys now order = .empty := by
  unfold load
  dsimp only
  split
  · rfl
  · split
    · rfl
    · rw [h, stripForeignSystem, clearSystem_empty, ite_self, prune_empty]

private theorem emptied_step {s : System F} (h : s.table = .empty) (op : Op F)
    (hop : s.NoRecord op) :
    (s.step op).table = .empty := by
  cases op with
  | begin call => exact h
  | advance call now sys order =>
    unfold step
    dsimp only
    cases hcall : s.calls[call]? with
    | none => exact h
    | some entry =>
      obtain ⟨kind, phase⟩ := entry
      cases phase with
      | ensure =>
        dsimp only [advanceCall]
        split <;> exact h
      | clearSystem =>
        show RouteHealth.clearSystem s.table = .empty
        rw [h, clearSystem_empty]
      | change =>
        rcases hop kind hcall with rfl | ⟨host, rfl⟩
        · rfl
        · show s.table.modify host _ = .empty
          rw [h]
          rfl
      | readNet =>
        dsimp only [advanceCall]
        split <;> exact h
      | snapshot net =>
        show prune s.table now order = .empty
        rw [h, prune_empty]
      | _ => exact h
  | write index ok =>
    unfold step
    dsimp only
    cases s.writes[index]? with
    | none => exact h
    | some w =>
      dsimp only [advanceWrite]
      split
      · exact h
      · split <;> exact h
      · exact h

/-- Changes are not taken back. -/
theorem version_step (s : System F) (op : Op F) : s.version ≤ (s.step op).version := by
  cases op with
  | begin call => exact Nat.le_refl _
  | advance call now sys order =>
    unfold step
    dsimp only
    cases hcall : s.calls[call]? with
    | none => exact Nat.le_refl _
    | some entry =>
      obtain ⟨kind, phase⟩ := entry
      cases phase with
      | ensure =>
        dsimp only [advanceCall]
        split <;> exact Nat.le_refl _
      | clearSystem => exact Nat.le_succ _
      | change => cases kind <;> exact Nat.le_succ _
      | readNet =>
        dsimp only [advanceCall]
        split <;> exact Nat.le_refl _
      | snapshot net => exact Nat.le_succ _
      | _ => exact Nat.le_refl _
  | write index ok =>
    unfold step
    dsimp only
    cases s.writes[index]? with
    | none => exact Nat.le_refl _
    | some w =>
      dsimp only [advanceWrite]
      split
      · exact Nat.le_refl _
      · split <;> exact Nat.le_refl _
      · exact Nat.le_refl _

end Empty

/-! ## Every run -/

section Every

variable [Estimate F]

/-- The row after a run that began with a table and a row on a known network. -/
abbrev ran (table : Routes F) (net sys : String) (stored : Option (RouteFile F)) (ops : List (Op F)) :
    System F :=
  run step (start table net sys stored) ops

/-- In runs that keep the order of snapshots and writes the row has the table that was left by the
last change, and after a clear without a later record it has no hosts, also for the next start. -/
theorem newest_stored (table : Routes F) {net : String} (hnet : net ≠ "") (sys : String)
    (stored : Option (RouteFile F)) (ops : List (Op F))
    (h : EveryStep step InOrder (start table net sys stored) ops)
    (hsettled : (ran table net sys stored ops).Settled) :
    (ran table net sys stored ops).Newest ∧
    ∀ before call now sys' order after,
      ops = before ++ .advance call now sys' order :: after →
      (ran table net sys stored before).calls[call]? = some (.clearAll, .change) →
      EveryStep step NoRecord
        (ran table net sys stored (before ++ [.advance call now sys' order])) after →
      ∃ file, (ran table net sys stored ops).stored = some file ∧ file.hosts = .empty ∧
        ∀ net sys now order, load (some file) net sys now order = .empty := by
  have hstep : ∀ (s : System F) (op : Op F), s.Ordered → s.InOrder op → (s.step op).Ordered :=
    fun _ op hs hop ↦ ordered_step hs op hop
  have hordered : (ran table net sys stored ops).Ordered :=
    run_invariant hstep (ordered_start table hnet sys stored) h
  have hnewest := hordered.newest hsettled
  refine ⟨hnewest, ?_⟩
  rintro before call now sys' order after rfl hclear hquiet
  have hsplit : before ++ .advance call now sys' order :: after =
      (before ++ [.advance call now sys' order]) ++ after := by simp
  have hcleared : ran table net sys stored (before ++ [.advance call now sys' order]) =
      (ran table net sys stored before).step (.advance call now sys' order) := run_concat _ _ _ _
  have hempty : (ran table net sys stored (before ++ [.advance call now sys' order])).table = .empty := by
    rw [hcleared]
    unfold step
    dsimp only
    rw [hclear]
    rfl
  have hchanged : 0 < (ran table net sys stored (before ++ [.advance call now sys' order])).version := by
    rw [hcleared]
    unfold step
    dsimp only
    rw [hclear]
    exact Nat.succ_pos _
  have htable : (ran table net sys stored
      (before ++ .advance call now sys' order :: after)).table = .empty := by
    unfold ran
    rw [hsplit, run_append]
    have hstep' : ∀ (s : System F) (op : Op F), s.table = .empty → s.NoRecord op →
        (s.step op).table = .empty := fun _ op hs hop ↦ emptied_step hs op hop
    exact run_invariant hstep' hempty hquiet
  have hversion : 0 < (ran table net sys stored
      (before ++ .advance call now sys' order :: after)).version := by
    unfold ran
    rw [hsplit, run_append]
    exact @run_preserves _ _ _ (fun s ↦ 0 < s.version)
      (fun s op hs ↦ Nat.lt_of_lt_of_le hs (version_step s op)) _ hchanged after
  obtain ⟨file, hstored, hhosts⟩ := hnewest (Nat.ne_of_gt hversion)
  rw [htable] at hhosts
  exact ⟨file, hstored, hhosts, load_of_empty hhosts⟩

end Every

end System

/-! ## Runs -/

instance : Estimate Float where
  ln := Float.log
  powf := Float.pow
  max a b := if a.isNaN then b else if b.isNaN then a else if a < b then b else a
  min a b := if a.isNaN then b else if b.isNaN then a else if a < b then a else b

/-- A call takes some steps at a time. -/
def takes (call now steps : Nat) : List (Op Float) := List.replicate steps (.advance call now "" [])

/-- A host is recorded and the table is cleared, one after the other. -/
def orderlyRun : List (Op Float) :=
  .begin (.noSwitch "example.com") :: takes 0 100 6 ++ [.write 0 true, .write 0 true] ++
    .begin .clearAll :: takes 1 101 4 ++ [.write 1 true, .write 1 true]

/-- Records and a clear, each stored before the next begins. -/
theorem newest_stored_orderly :
    ∃ file, (System.ran .empty "net" "" none orderlyRun).stored = some file ∧
      file.hosts = (System.ran .empty "net" "" none orderlyRun).table := by
  have hnewest := (System.newest_stored .empty (show "net" ≠ "" by decide) "" none orderlyRun
    (by decide +kernel) (by decide +kernel)).1
  apply hnewest
  decide +kernel

/-- The table is cleared after the snapshot of a record and before its number. -/
def lateNumber : List (Op Float) :=
  .begin (.noSwitch "example.com") :: takes 0 100 5 ++
    .begin .clearAll :: takes 1 101 4 ++ takes 0 102 1 ++
      [.write 0 true, .write 1 true, .write 1 true]

/-- The table is cleared while the write of a record, which found no newer number, waits for the
database. -/
def lateWrite : List (Op Float) :=
  .begin (.noSwitch "example.com") :: takes 0 100 6 ++ [.write 0 true] ++
    .begin .clearAll :: takes 1 101 4 ++ [.write 1 true, .write 1 true, .write 0 true]

/-- In both runs all has ended, and the cleared host is in the row. -/
theorem cleared_host_stored :
    (¬∀ ops : List (Op Float), (System.ran .empty "net" "" none ops).Settled →
      (System.ran .empty "net" "" none ops).Newest) ∧
    (System.ran .empty "net" "" none lateNumber).Settled ∧
    (System.ran .empty "net" "" none lateWrite).Settled ∧
    ∀ ops ∈ [lateNumber, lateWrite],
      (System.ran .empty "net" "" none ops).table.keys = [] ∧
        (System.ran .empty "net" "" none ops).stored.map (fun file ↦ file.hosts.keys) =
          some ["example.com"] := by
  have hruns : (System.ran .empty "net" "" none lateNumber).Settled ∧
      (System.ran .empty "net" "" none lateWrite).Settled ∧
      ∀ ops ∈ [lateNumber, lateWrite],
        (System.ran .empty "net" "" none ops).table.keys = [] ∧
          (System.ran .empty "net" "" none ops).stored.map (fun file ↦ file.hosts.keys) =
            some ["example.com"] := by
    simp only [List.forall_mem_cons, List.not_mem_nil, false_implies, implies_true, and_true]
    decide +kernel
  refine ⟨fun h ↦ ?_, hruns⟩
  obtain ⟨hempty, hkeys⟩ := hruns.2.2 lateNumber List.mem_cons_self
  obtain ⟨file, hstored, hhosts⟩ := h lateNumber hruns.1 (by decide +kernel)
  rw [hstored, Option.map_some, hhosts, hempty] at hkeys
  cases hkeys

end Engine.RouteHealth
