import FluxDown.Base.Run

/-!
# Version latch of the segments

Library `Engine`. Without a probe the segments of one download have no validators to compare
with; the first response stores its own in a latch that all segments share, and every later
response is compared with that pair. Two validators differ only where both are present. A
difference of `Last-Modified` alone is tolerated where the response is for the planned size and
the requested offset.
-/

namespace Engine

open Base

/-- `ETag` and `Last-Modified` of a response, empty where the header is missing. -/
structure Validators where
  etag : String
  lastModified : String
deriving DecidableEq

/-- Both are present and not the same. -/
def drifted (base resp : String) : Bool := !base.isEmpty && !resp.isEmpty && base != resp

/-- Compare a response with the latch, or fill it
(`src/native/engine/src/segment_coordinator.rs:4365–4390`). -/
def checkCrossSegmentValidators (firstValidators : Option Validators) (resp : Validators) :
    Option Validators × Except Validators Unit :=
  match firstValidators with
  | none => (some resp, .ok ())
  | some base =>
    if drifted base.etag resp.etag || drifted base.lastModified resp.lastModified then
      (some base, .error base)
    else (some base, .ok ())

/-- Whether a difference means another version of the file
(`src/native/engine/src/downloader.rs:1066–1089`). -/
def validatorMismatchIsFatal (etagMismatch lastModifiedMismatch : Bool)
    (contentRangeTotal : Option Int) (knownTotal : Int)
    (contentRangeStart requestedStart : Option Int) : Bool :=
  if etagMismatch then true
  else if !lastModifiedMismatch then false
  else if knownTotal ≤ 0 ∨ contentRangeTotal ≠ some knownTotal then true
  else match requestedStart with
    | some _ => contentRangeStart ≠ requestedStart
    | none => false

/-- What the guard of a segment reads of a response: validators, the two numbers of
`Content-Range`, the offset that was asked for and the planned size. -/
structure SegmentResponse where
  validators : Validators
  contentRangeTotal : Option Int
  contentRangeStart : Option Int
  actualStart : Int
  plannedTotal : Int

/-- The latch and the responses that were let through, in the order of their checks. -/
structure VersionLatch where
  firstValidators : Option Validators
  accepted : List Validators

namespace VersionLatch

/-- The latch before any response (`segment_coordinator.rs:1981`). -/
def new : VersionLatch := ⟨none, []⟩

/-- One response is checked. -/
def check (latch : VersionLatch) (resp : Validators) : VersionLatch :=
  let (firstValidators, verdict) := checkCrossSegmentValidators latch.firstValidators resp
  match verdict with
  | .ok _ => ⟨firstValidators, latch.accepted ++ [resp]⟩
  | .error _ => { latch with firstValidators }

/-- A segment goes on after the check, or in spite of it
(`segment_coordinator.rs:6034–6089`). -/
def pass (latch : VersionLatch) (resp : SegmentResponse) : VersionLatch :=
  let (firstValidators, verdict) :=
    checkCrossSegmentValidators latch.firstValidators resp.validators
  match verdict with
  | .ok _ => ⟨firstValidators, latch.accepted ++ [resp.validators]⟩
  | .error base =>
    if validatorMismatchIsFatal (drifted base.etag resp.validators.etag)
        (drifted base.lastModified resp.validators.lastModified) resp.contentRangeTotal
        resp.plannedTotal resp.contentRangeStart (some resp.actualStart) then
      { latch with firstValidators }
    else ⟨firstValidators, latch.accepted ++ [resp.validators]⟩

end VersionLatch

private theorem drifted_eq_false {base resp : String} (hbase : base ≠ "") (hresp : resp ≠ "")
    (h : drifted base resp = false) : resp = base := by
  have hb : base.isEmpty = false := by
    rw [Bool.eq_false_iff]
    exact fun hempty ↦ hbase (String.isEmpty_iff.mp hempty)
  have hr : resp.isEmpty = false := by
    rw [Bool.eq_false_iff]
    exact fun hempty ↦ hresp (String.isEmpty_iff.mp hempty)
  simp only [drifted, hb, hr, Bool.not_false, Bool.true_and, bne_eq_false_iff_eq] at h
  exact h.symm

/-- A value does not drift from itself. -/
@[simp] theorem drifted_self (base : String) : drifted base base = false := by
  simp [drifted]

/-- A response that `base` lets through. -/
def Validators.agrees (base resp : Validators) : Bool :=
  !(drifted base.etag resp.etag || drifted base.lastModified resp.lastModified)

private theorem Validators.agrees_iff {base resp : Validators} :
    base.agrees resp = true ↔
      drifted base.etag resp.etag = false ∧ drifted base.lastModified resp.lastModified = false := by
  simp only [agrees, Bool.not_eq_true', Bool.or_eq_false_iff]

/-- No two responses of the list carry different values of a validator. -/
def SameValue (field : Validators → String) (responses : List Validators) : Prop :=
  ∀ a ∈ responses, ∀ b ∈ responses, field a ≠ "" → field b ≠ "" → field a = field b

instance (field : Validators → String) (responses : List Validators) :
    Decidable (SameValue field responses) :=
  inferInstanceAs (Decidable (∀ a ∈ responses, ∀ b ∈ responses, _ → _ → _))

/-- Responses that do not differ from one value carry at most that one. -/
theorem sameValue_of_base {field : Validators → String} {responses : List Validators}
    {base : String} (hbase : base ≠ "") (h : ∀ resp ∈ responses, drifted base (field resp) = false) :
    SameValue field responses := by
  intro a ha b hb hane hbne
  rw [drifted_eq_false hbase hane (h a ha), drifted_eq_false hbase hbne (h b hb)]

namespace VersionLatch

private theorem check_some (base : Validators) (accepted : List Validators) (resp : Validators) :
    check ⟨some base, accepted⟩ resp =
      ⟨some base, accepted ++ if base.agrees resp then [resp] else []⟩ := by
  unfold check checkCrossSegmentValidators
  by_cases h : drifted base.etag resp.etag || drifted base.lastModified resp.lastModified
  · simp [h, Validators.agrees]
  · simp [h, Validators.agrees]

/-- A filled latch never changes, and what it lets through does not depend on the order. -/
theorem run_check_some (base : Validators) (accepted responses : List Validators) :
    run check ⟨some base, accepted⟩ responses =
      ⟨some base, accepted ++ responses.filter base.agrees⟩ := by
  induction responses generalizing accepted with
  | nil => simp
  | cons resp responses ih =>
    rw [run_cons, check_some, ih, List.append_assoc, List.filter_cons]
    by_cases h : base.agrees resp
    · simp [h]
    · simp [h]

/-- The first response is accepted, and after it those that agree with it. -/
theorem accepted_eq (first : Validators) (rest : List Validators) :
    (run check new (first :: rest)).accepted = first :: rest.filter first.agrees := by
  have hfirst : check new first = ⟨some first, [first]⟩ := rfl
  rw [run_cons, hfirst, run_check_some]
  rfl

private theorem agrees_of_accepted {first : Validators} {rest : List Validators} {resp : Validators}
    (h : resp ∈ (run check new (first :: rest)).accepted) : first.agrees resp = true := by
  rw [accepted_eq, List.mem_cons] at h
  rcases h with rfl | h
  · simp [Validators.agrees]
  · exact (List.mem_filter.mp h).2

/-- Of a validator that the first response carries, the accepted ones carry no other value. -/
theorem accepted_same_version (first : Validators) (rest : List Validators) :
    let accepted := (run check new (first :: rest)).accepted
    (first.etag ≠ "" → SameValue Validators.etag accepted) ∧
      (first.lastModified ≠ "" → SameValue Validators.lastModified accepted) := by
  constructor
  · intro hetag
    apply sameValue_of_base hetag
    intro resp hresp
    exact (Validators.agrees_iff.mp (agrees_of_accepted hresp)).1
  · intro hlm
    apply sameValue_of_base hlm
    intro resp hresp
    exact (Validators.agrees_iff.mp (agrees_of_accepted hresp)).2

/-- Answers without a tag and with another one. -/
theorem accepted_same_version_sample :
    SameValue Validators.etag
      (run check new [⟨"\"e1\"", ""⟩, ⟨"", ""⟩, ⟨"\"e2\"", ""⟩, ⟨"\"e1\"", ""⟩]).accepted :=
  (accepted_same_version ⟨"\"e1\"", ""⟩ [⟨"", ""⟩, ⟨"\"e2\"", ""⟩, ⟨"\"e1\"", ""⟩]).1 (by decide)

/-- A first response without validators lets everything after it through. -/
theorem accepted_two_versions :
    ¬ SameValue Validators.etag
      (run check new [⟨"", ""⟩, ⟨"\"e1\"", ""⟩, ⟨"\"e2\"", ""⟩]).accepted := by
  decide

/-! ## Segments that go on -/

/-- What a segment that goes on has shown: no other `ETag`, and another `Last-Modified` only in
a response for the planned size and the requested offset. -/
def Admissible (first : Validators) (resp : SegmentResponse) : Prop :=
  drifted first.etag resp.validators.etag = false ∧
    (drifted first.lastModified resp.validators.lastModified = false ∨
      0 < resp.plannedTotal ∧ resp.contentRangeTotal = some resp.plannedTotal ∧
        resp.contentRangeStart = some resp.actualStart)

private theorem not_fatal_iff {etagMismatch lastModifiedMismatch : Bool} {total start : Option Int}
    {known requested : Int} :
    validatorMismatchIsFatal etagMismatch lastModifiedMismatch total known start (some requested) =
        false ↔
      etagMismatch = false ∧
        (lastModifiedMismatch = false ∨ 0 < known ∧ total = some known ∧ start = some requested) := by
  unfold validatorMismatchIsFatal
  cases etagMismatch with
  | true => simp
  | false =>
    cases lastModifiedMismatch with
    | false => simp
    | true =>
      by_cases hknown : known ≤ 0
      · simp [hknown, Int.not_lt.mpr hknown]
      · by_cases htotal : total = some known
        · simp [hknown, htotal, Int.not_le.mp hknown]
        · simp [hknown, htotal]

/-- A response goes on past a filled latch exactly where it is admissible. -/
theorem pass_cases (base : Validators) (accepted : List Validators) (resp : SegmentResponse) :
    pass ⟨some base, accepted⟩ resp = ⟨some base, accepted ++ [resp.validators]⟩ ∧
        Admissible base resp ∨
      pass ⟨some base, accepted⟩ resp = ⟨some base, accepted⟩ ∧ ¬ Admissible base resp := by
  unfold pass checkCrossSegmentValidators
  by_cases hdrift : drifted base.etag resp.validators.etag ||
      drifted base.lastModified resp.validators.lastModified
  · simp only [hdrift, if_true]
    split
    · next hfatal =>
      right
      refine ⟨rfl, fun hadmissible ↦ ?_⟩
      rw [not_fatal_iff.mpr hadmissible] at hfatal
      cases hfatal
    · next hfatal =>
      left
      exact ⟨rfl, not_fatal_iff.mp (Bool.eq_false_iff.mpr hfatal)⟩
  · rw [Bool.not_eq_true, Bool.or_eq_false_iff] at hdrift
    left
    refine ⟨?_, hdrift.1, Or.inl hdrift.2⟩
    simp only [hdrift, Bool.or_self, Bool.false_eq_true, if_false]

/-- The latch holds `base`, and no response that went on has another `ETag`. -/
private structure Latched (base : Validators) (latch : VersionLatch) : Prop where
  filled : latch.firstValidators = some base
  etags : ∀ v ∈ latch.accepted, drifted base.etag v.etag = false

private theorem Latched.pass {base : Validators} {latch : VersionLatch} (h : Latched base latch)
    (resp : SegmentResponse) : Latched base (latch.pass resp) := by
  have hlatch : latch = ⟨some base, latch.accepted⟩ := by rw [← h.filled]
  rw [hlatch]
  rcases pass_cases base latch.accepted resp with ⟨hpass, hadmissible⟩ | ⟨hpass, -⟩
  · rw [hpass]
    refine ⟨rfl, fun v hv ↦ ?_⟩
    rcases List.mem_append.mp hv with hv | hv
    · exact h.etags v hv
    · rw [List.mem_singleton.mp hv]
      exact hadmissible.1
  · rw [hpass]
    exact ⟨rfl, h.etags⟩

/-- Segments that go on never mix two `ETag`s, if the first response carries one. -/
theorem passed_same_etag (first : SegmentResponse) (rest : List SegmentResponse)
    (hetag : first.validators.etag ≠ "") :
    SameValue Validators.etag (run VersionLatch.pass new (first :: rest)).accepted := by
  have hfirst : Latched first.validators (VersionLatch.pass new first) := by
    refine ⟨rfl, fun v hv ↦ ?_⟩
    have hv : v ∈ [first.validators] := hv
    rw [List.mem_singleton.mp hv]
    exact drifted_self _
  exact sameValue_of_base hetag (run_preserves (fun _ resp h ↦ h.pass resp) hfirst rest).etags

end VersionLatch

end Engine
