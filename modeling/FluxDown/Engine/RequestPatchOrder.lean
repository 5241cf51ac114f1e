import FluxDown.Engine.RequestPatchSafety

/-!
# The order of header maps, and runs of patches

Library `Engine`. A patch whose header maps iterate in another order does the same, as long as no
map has two names that differ only in case. With what the rules keep, this settles what a sequence
of patches can do to a request.
-/

namespace Engine.Intercept

open Base

variable {F : Foreign} {target : RequestTarget} {patch patch' : RequestPatch} {d d' : Draft}

/-! ## Results that agree -/

/-- Both fail, or both give the same value. -/
def Agree {α : Type} (x y : Except Failure α) : Prop := ∀ a, x = .ok a ↔ y = .ok a

namespace Agree

variable {α β : Type}

private theorem refl (x : Except Failure α) : Agree x x := fun _ ↦ .rfl

private theorem bind {x y : Except Failure α} {f g : α → Except Failure β} (h : Agree x y)
    (hfg : ∀ a, Agree (f a) (g a)) : Agree (x >>= f) (y >>= g) := fun b ↦ by
  simp only [bind_eq_ok]
  exact exists_congr fun a ↦ and_congr (h a) (hfg a b)

private theorem applyRules {rules rules' : List Rule}
    (h : List.Forall₂ (fun rule rule' ↦ ∀ d, Agree (rule d) (rule' d)) rules rules') (d : Draft) :
    Agree (applyRules rules d) (applyRules rules' d) := by
  induction h generalizing d with
  | nil => exact .refl _
  | cons hrule _ ih =>
    simp only [Intercept.applyRules, List.foldlM_cons]
    exact (hrule d).bind ih

end Agree

/-! ## Header maps in another order -/

/-- The same map, iterated in another order. -/
def HeaderMap.Reordered (headers headers' : HeaderMap) : Prop :=
  headers.entries.Perm headers'.entries

/-- The same rule, with its headers iterated in another order. -/
def OriginHeaders.Reordered (rule rule' : OriginHeaders HeaderMap) : Prop :=
  rule.origin = rule'.origin ∧ rule.headers.Reordered rule'.headers

/-- The same patch, with its header maps iterated in another order. -/
structure RequestPatch.Reordered (patch patch' : RequestPatch) : Prop where
  setHeaders : Option.Rel HeaderMap.Reordered patch.setHeaders patch'.setHeaders
  originHeaders :
    Option.Rel (List.Forall₂ OriginHeaders.Reordered) patch.originHeaders patch'.originHeaders
  others : patch' =
    { patch with setHeaders := patch'.setHeaders, originHeaders := patch'.originHeaders }

/-- No header map of the patch has two names alike. -/
structure RequestPatch.Plain (patch : RequestPatch) : Prop where
  setHeaders : ∀ headers ∈ patch.setHeaders, headers.Plain
  originHeaders : ∀ rules ∈ patch.originHeaders, ∀ rule ∈ rules, rule.headers.Plain

private theorem validateHeaders_agree {headers headers' : HeaderMap}
    (h : headers.Reordered headers') :
    Agree (validateHeaders F headers) (validateHeaders F headers') := fun _ ↦ by
  rw [validateHeaders, validateHeaders, forM_eq_ok, forM_eq_ok]
  exact forall_congr' fun e ↦ by rw [h.mem_iff]

/-- Entries whose names are not alike are set in any order. -/
theorem setNamed_comm {e e' : String × String} (hne : lowered e.1 ≠ lowered e'.1) (d : Draft) :
    setNamed (setNamed d e) e' = setNamed (setNamed d e') e := by
  simp only [setNamed_eq, SortedMap.putLike_comm hne, Bool.or_assoc,
    Bool.or_comm (isNamed e.1 _)]

private theorem foldl_setNamed_reordered {headers headers' : HeaderMap} (hplain : headers.Plain)
    (h : headers.Reordered headers') (d : Draft) :
    headers.entries.foldl setNamed d = headers'.entries.foldl setNamed d := by
  have hsymm : Std.Symm fun e e' : String × String ↦ lowered e.1 ≠ lowered e'.1 :=
    ⟨fun _ _ hne ↦ hne.symm⟩
  apply List.Perm.foldl_eq' h
  intro e he e' he' d
  by_cases heq : e = e'
  · rw [heq]
  · exact setNamed_comm (hplain.forall he he' heq) d

private theorem mergeOrigin_reordered {headers headers' : HeaderMap} (hplain : headers.Plain)
    (h : headers.Reordered headers') (rules : List (OriginHeaders Headers)) (origin : String) :
    mergeOrigin rules origin headers = mergeOrigin rules origin headers' := by
  have hmerge (base : Headers) : mergeHeaders base headers = mergeHeaders base headers' :=
    SortedMap.putAllLike_perm h hplain
  induction rules with
  | nil => rw [mergeOrigin, mergeOrigin, hmerge]
  | cons rule rules ih => rw [mergeOrigin, mergeOrigin, hmerge, ih]

private theorem applyOriginRule_agree {rule rule' : OriginHeaders HeaderMap}
    (hplain : rule.headers.Plain)
    (h : rule.Reordered rule') (rules : List (OriginHeaders Headers)) :
    Agree (applyOriginRule F rules rule) (applyOriginRule F rules rule') := by
  obtain ⟨origin, headers⟩ := rule
  obtain ⟨origin', headers'⟩ := rule'
  obtain ⟨rfl, hperm⟩ : origin = origin' ∧ headers.Reordered headers' := h
  refine (Agree.refl _).bind fun site ↦ (validateHeaders_agree hperm).bind fun _ ↦ ?_
  rw [mergeOrigin_reordered hplain hperm]
  exact .refl _

private theorem foldlM_applyOriginRule_agree {added added' : List (OriginHeaders HeaderMap)}
    (hplain : ∀ rule ∈ added, rule.headers.Plain)
    (h : List.Forall₂ OriginHeaders.Reordered added added') (rules : List (OriginHeaders Headers)) :
    Agree (added.foldlM (applyOriginRule F) rules) (added'.foldlM (applyOriginRule F) rules) := by
  induction h generalizing rules with
  | nil => exact .refl _
  | cons hrule _ ih =>
    rw [List.forall_mem_cons] at hplain
    rw [List.foldlM_cons, List.foldlM_cons]
    exact (applyOriginRule_agree hplain.1 hrule rules).bind (ih hplain.2)

private theorem applySetHeaders_agree (hplain : patch.Plain) (h : patch.Reordered patch')
    (d : Draft) :
    Agree (applySetHeaders F target patch d) (applySetHeaders F target patch' d) := by
  have hset := h.setHeaders
  have hheaders := hplain.setHeaders
  unfold applySetHeaders
  generalize patch.setHeaders = field at hset hheaders
  generalize patch'.setHeaders = field' at hset
  cases hset with
  | none => exact .refl _
  | some hperm =>
    refine (Agree.refl _).bind fun _ ↦ (validateHeaders_agree hperm).bind fun _ ↦ ?_
    rw [foldl_setNamed_reordered (hheaders _ rfl) hperm]
    exact .refl _

private theorem applyOriginHeaders_agree (hplain : patch.Plain) (h : patch.Reordered patch')
    (d : Draft) :
    Agree (applyOriginHeaders F target patch d) (applyOriginHeaders F target patch' d) := by
  have horigin := h.originHeaders
  have hheaders := hplain.originHeaders
  unfold applyOriginHeaders
  generalize patch.originHeaders = field at horigin hheaders
  generalize patch'.originHeaders = field' at horigin
  cases horigin with
  | none => exact .refl _
  | some hrules =>
    refine (Agree.refl _).bind fun _ ↦ ?_
    rw [hrules.length_eq]
    refine (Agree.refl _).bind fun _ ↦ ?_
    exact (foldlM_applyOriginRule_agree (hheaders _ rfl) hrules _).bind fun _ ↦ .refl _

/-- The rules of a patch do the same when its header maps iterate in another order. -/
theorem applyRules_agree (hplain : patch.Plain) (h : patch.Reordered patch') (d : Draft) :
    Agree (applyRules (rules F target patch) d) (applyRules (rules F target patch') d) := by
  have hset := @applySetHeaders_agree F target _ _ hplain h
  have horigin := @applyOriginHeaders_agree F target _ _ hplain h
  apply Agree.applyRules
  rw [h.others] at hset horigin ⊢
  exact .cons (fun _ ↦ .refl _) <| .cons (fun _ ↦ .refl _) <| .cons (fun _ ↦ .refl _) <|
    .cons (fun _ ↦ .refl _) <| .cons (fun _ ↦ .refl _) <| .cons (fun _ ↦ .refl _) <|
    .cons (fun _ ↦ .refl _) <| .cons (fun _ ↦ .refl _) <| .cons hset <| .cons horigin <|
    .cons (fun _ ↦ .refl _) <| .cons (fun _ ↦ .refl _) <| .cons (fun _ ↦ .refl _) <|
    .cons (fun _ ↦ .refl _) <| .cons (fun _ ↦ .refl _) .nil

/-! ## Patches of a refresh -/

/-- A patch of a refresh has none of the fields that only a first run may rewrite. -/
theorem fields_of_checkRefreshPatch {kind : ProtocolKind}
    (h : checkRefreshPatch patch kind = .ok ()) :
    patch.method = none ∧ (patch.body = none ∧ patch.clearBody = false) ∧ patch.segments = none ∧
      patch.maxConnections = none ∧ patch.maxRangeBytes = none ∧ patch.fileName = none ∧
      (patch.ephemeral = none ∧ patch.totalBytes = none ∧ patch.rangeSupported = none) ∧
      (patch.url = none ∨ kind = .http) := by
  unfold checkRefreshPatch at h
  split at h
  · cases h
  · next hfind =>
    have hnone := List.find?_eq_none.mp hfind
    simp only [refreshForbidden, List.forall_mem_cons, Bool.not_eq_true, Bool.or_eq_false_iff,
      Option.isSome_eq_false_iff, Option.isNone_iff_eq_none] at hnone
    obtain ⟨hmethod, hbody, hsegments, hconnections, hrange, hname, ⟨⟨he, ht⟩, hr⟩, -⟩ := hnone
    exact ⟨hmethod, hbody, hsegments, hconnections, hrange, hname, ⟨he, ht, hr⟩, demand_eq_ok.mp h⟩

/-- The rules of a refresh keep the frame of the request but for its address, and the address too
when the patch has none. -/
theorem frame_of_refresh (hF : F.Lowers) (hwire : patch.replaceHeaders = none)
    (hcheck : checkRefreshPatch patch target.kind = .ok ())
    (h : applyRules (rules F target patch) d = .ok d') :
    d'.frame.2 = d.frame.2 ∧ (patch.url = none → d'.frame.1 = d.frame.1) := by
  obtain ⟨hmethod, ⟨hbody, hclear⟩, hsegments, hconnections, hrange, hname, ⟨he, ht, hr⟩, -⟩ :=
    fields_of_checkRefreshPatch hcheck
  have hsame {d d' : Draft} (h : d'.frame = d.frame) :
      d'.frame.2 = d.frame.2 ∧ (patch.url = none → d'.frame.1 = d.frame.1) := by
    rw [h]
    exact ⟨rfl, fun _ ↦ rfl⟩
  have hkeep {rule : Rule} (hid : ∀ d, rule d = .ok d) (d d' : Draft) (h : rule d = .ok d') :
      d'.frame = d.frame := by
    rw [hid] at h
    rw [Except.ok.inj h]
  refine @applyRules_induct _ _
    (fun d d' ↦ d'.frame.2 = d.frame.2 ∧ (patch.url = none → d'.frame.1 = d.frame.1))
    (fun _ ↦ hsame rfl)
    (fun _ _ _ h h' ↦ ⟨h'.1.trans h.1, fun hnone ↦ (h'.2 hnone).trans (h.2 hnone)⟩) _
    (fun rule hrule d d' h ↦ ?_) h
  simp only [rules, List.mem_cons, List.not_mem_nil, or_false] at hrule
  rcases hrule with rfl | rfl | rfl | rfl | rfl | rfl | rfl | rfl | rfl | rfl | rfl | rfl | rfl |
    rfl | rfl
  · exact hsame (hkeep (fun _ ↦ onField_none hwire) d d' h)
  · refine ⟨(applyUrl_keeps h).2, fun hnone ↦ ?_⟩
    rw [hkeep (fun _ ↦ onField_none hnone) d d' h]
  · exact hsame (hkeep (fun _ ↦ onField_none hmethod) d d' h)
  · exact hsame (hkeep (fun _ ↦ by simp [applyBody, hbody, hclear]) d d' h)
  · exact hsame (@applyCookies_keeps F _ _ _ _ h).2
  · exact hsame (@applyReferrer_keeps F _ _ _ _ h).2
  · exact hsame (applyUserAgent_keeps h).2
  · exact hsame (@applyRemoveHeaders_keeps F _ _ _ _ h).2
  · exact hsame (applySetHeaders_keeps hF h).2
  · exact hsame (applyOriginHeaders_keeps hF h).2.1
  · exact hsame (hkeep (fun _ ↦ onField_none hsegments) d d' h)
  · exact hsame (hkeep (fun _ ↦ onField_none hconnections) d d' h)
  · exact hsame (hkeep (fun _ ↦ onField_none hrange) d d' h)
  · exact hsame (hkeep (fun _ ↦ onField_none hname) d d' h)
  · exact hsame (hkeep (fun _ ↦ by simp [applyEphemeral, he, ht, hr, demand, bind, Except.bind]) d d' h)

/-! ## Runs of patches -/

/-- Rules for sites, each site once, with headers of names that are not alike. -/
structure Tidy (rules : List (OriginHeaders Headers)) : Prop where
  once : (rules.map OriginHeaders.origin).Nodup
  unlike : ∀ rule ∈ rules, rule.headers.Unlike lowered

/-- What is left of a request after a patch passed. -/
structure SafeAfter (F : Foreign) (target : RequestTarget) (patch : RequestPatch)
    (after : RequestTarget) : Prop where
  host : hostOf F after.url = hostOf F target.url
  kind : after.kind = target.kind ∧
    (protocolKind target.url target.hasAudioTrack = target.kind →
      protocolKind after.url target.hasAudioTrack = target.kind)
  unlike : after.spec.extraHeaders.Unlike lowered
  blocked : ∀ name ∈ after.spec.extraHeaders.keys, Blocked name →
    name ∈ target.spec.extraHeaders.keys
  tidy : Tidy after.spec.originHeaders
  originBlocked : ∀ rule' ∈ after.spec.originHeaders, ∀ name ∈ rule'.headers.keys, Blocked name →
    ∃ rule ∈ target.spec.originHeaders, rule.origin = rule'.origin ∧ name ∈ rule.headers.keys
  setHeaders : ∀ headers ∈ patch.setHeaders, ∀ e ∈ headers.entries,
    after.spec.extraHeaders.get? e.1 = some e.2

/-- What a patch of a refresh leaves alone. -/
structure RefreshKept (target after : RequestTarget) : Prop where
  method : after.spec.method = target.spec.method
  body : after.spec.body = target.spec.body
  segmentCount : after.segmentCount = target.segmentCount
  connectionCap : after.connectionCap = target.connectionCap
  maxRangeBytes : after.spec.maxRangeBytes = target.spec.maxRangeBytes
  fileName : after.fileName = target.fileName
  hintFileSize : after.hintFileSize = target.hintFileSize
  rangeVerified : after.rangeVerified = target.rangeVerified
  url : target.kind ≠ .http → after.url = target.url

/-- A patch of a sequence, with the target it finds. -/
def Meets (F : Foreign) (target : RequestTarget) (patches : List RequestPatch)
    (found : RequestTarget) (patch : RequestPatch) : Prop :=
  ∃ before after, patches = before ++ patch :: after ∧ found = applyPatches F target before

/-- A sequence of patches keeps a request safe. -/
structure KeepsSafe (F : Foreign) (target : RequestTarget) (patches : List RequestPatch) : Prop where
  failed : ∀ found patch, Meets F target patches found patch →
    ∀ failure, (applyRequestPatch F found patch).1 = .error failure →
      (applyRequestPatch F found patch).2 = found
  passed : ∀ found patch, Meets F target patches found patch →
    ∀ outcome, (applyRequestPatch F found patch).1 = .ok outcome →
      SafeAfter F target patch (applyRequestPatch F found patch).2
  refreshed : ∀ found patch, Meets F target patches found patch →
    checkRefreshPatch patch found.kind = .ok () →
      RefreshKept found (applyRequestPatch F found patch).2
  reordered : ∀ patches', List.Forall₂ RequestPatch.Reordered patches patches' →
    applyPatches F target patches' = applyPatches F target patches

private theorem applyRequestPatch_error {failure : Failure}
    (h : applyRules (rules F target patch) (.ofTarget target) = .error failure) :
    applyRequestPatch F target patch = (.error failure, target) := by
  rw [applyRequestPatch, h]

private theorem applyRequestPatch_ok
    (h : applyRules (rules F target patch) (.ofTarget target) = .ok d) :
    applyRequestPatch F target patch = (.ok d.out, commit target d) := by
  rw [applyRequestPatch, h]

/-- Storing a value again changes nothing. -/
@[simp] theorem store_self {α : Type} (slot : Option α) : store slot slot = slot := by
  cases slot <;> rfl

/-- A failed patch leaves the target. -/
theorem applyRequestPatch_failed {failure : Failure}
    (h : (applyRequestPatch F target patch).1 = .error failure) :
    (applyRequestPatch F target patch).2 = target := by
  cases hrules : applyRules (rules F target patch) (.ofTarget target) with
  | error failure => rw [applyRequestPatch_error hrules]
  | ok d =>
    rw [applyRequestPatch_ok hrules] at h
    cases h

/-- The order in which header maps iterate does not change the target. -/
theorem applyRequestPatch_reordered (hplain : patch.Plain) (h : patch.Reordered patch') :
    (applyRequestPatch F target patch').2 = (applyRequestPatch F target patch).2 := by
  have hagree := @applyRules_agree F target _ _ hplain h (.ofTarget target)
  cases hrules : applyRules (rules F target patch) (.ofTarget target) with
  | ok d => rw [applyRequestPatch_ok hrules, applyRequestPatch_ok ((hagree d).mp hrules)]
  | error failure =>
    rw [applyRequestPatch_error hrules]
    cases hrules' : applyRules (rules F target patch') (.ofTarget target) with
    | error failure' => rw [applyRequestPatch_error hrules']
    | ok d =>
      rw [(hagree d).mpr hrules'] at hrules
      cases hrules

private theorem applyPatches_reordered {patches patches' : List RequestPatch}
    (hplain : ∀ patch ∈ patches, patch.Plain)
    (h : List.Forall₂ RequestPatch.Reordered patches patches') (target : RequestTarget) :
    applyPatches F target patches' = applyPatches F target patches := by
  induction h generalizing target with
  | nil => rfl
  | cons hpatch _ ih =>
    rw [List.forall_mem_cons] at hplain
    have hstep := @applyRequestPatch_reordered F target _ _ hplain.1 hpatch
    simp only [applyPatches, List.foldl_cons, hstep]
    exact ih hplain.2 _

/-- What patches keep: a target reached from another one. -/
structure Reached (F : Foreign) (target found : RequestTarget) : Prop where
  kept : Kept F target (.ofTarget target) (.ofTarget found)
  kind : found.kind = target.kind
  hasAudioTrack : found.hasAudioTrack = target.hasAudioTrack

private theorem Reached.applyRequestPatch (hF : F.Lowers) (hwire : patch.replaceHeaders = none)
    {found : RequestTarget} (h : Reached F target found) :
    Reached F target (applyRequestPatch F found patch).2 := by
  cases hrules : applyRules (rules F found patch) (.ofTarget found) with
  | error failure =>
    rw [applyRequestPatch_error hrules]
    exact h
  | ok d =>
    rw [applyRequestPatch_ok hrules]
    have hkept := kept_of_applyRules hF hwire hrules
    refine ⟨h.kept.trans ⟨hkept.host, ?_, hkept.headers, hkept.origins⟩, h.kind, h.hasAudioTrack⟩
    have hkind := hkept.kind
    rwa [h.kind, h.hasAudioTrack] at hkind

private theorem Reached.applyPatches (hF : F.Lowers) {patches : List RequestPatch}
    (hwire : ∀ patch ∈ patches, patch.replaceHeaders = none) {found : RequestTarget}
    (h : Reached F target found) : Reached F target (applyPatches F found patches) := by
  induction patches generalizing found with
  | nil => exact h
  | cons patch patches ih =>
    rw [List.forall_mem_cons] at hwire
    exact ih hwire.2 (h.applyRequestPatch hF hwire.1)

private theorem Reached.refl (target : RequestTarget) :
    Reached F target target := ⟨.refl _, rfl, rfl⟩

/-- A passed patch leaves a reached target safe. -/
theorem safeAfter_of_reached (hF : F.Lowers) (hheaders : target.spec.extraHeaders.Unlike lowered)
    (htidy : Tidy target.spec.originHeaders) (hwire : patch.replaceHeaders = none)
    (hplain : patch.Plain) {found : RequestTarget} (h : Reached F target found)
    {outcome : PatchOutcome} (hok : (applyRequestPatch F found patch).1 = .ok outcome) :
    SafeAfter F target patch (applyRequestPatch F found patch).2 := by
  have hafter := h.applyRequestPatch hF hwire
  cases hrules : applyRules (rules F found patch) (.ofTarget found) with
  | error failure =>
    rw [applyRequestPatch_error hrules] at hok
    cases hok
  | ok d =>
    rw [applyRequestPatch_ok hrules] at hafter ⊢
    obtain ⟨⟨hhost, hkind, hextra, horigins⟩, hkind', -⟩ := hafter
    refine ⟨hhost, ⟨hkind', fun hsame ↦ ?_⟩, hextra.unlike hheaders, hextra.blocked,
      ⟨horigins.once htidy.once, fun rule' hmem ↦ ?_⟩, fun rule' hmem name hname hblocked ↦ ?_,
      fun headers hset e he ↦ ?_⟩
    · rcases hkind with hurl | hkind
      · rw [← hsame]
        exact congrArg (protocolKind · target.hasAudioTrack) hurl
      · exact hkind
    · rcases horigins.headers rule' hmem with hempty | ⟨rule, hmem, -, hkept⟩
      · exact hempty.unlike .empty
      · exact hkept.unlike (htidy.unlike rule hmem)
    · rcases horigins.headers rule' hmem with hempty | ⟨rule, hmem, horigin, hkept⟩
      · exact absurd (hempty.blocked name hname hblocked) (by simp [SortedMap.keys])
      · exact ⟨rule, hmem, horigin, hkept.blocked name hname hblocked⟩
    · exact get?_of_setHeaders hF hset (hplain.setHeaders headers hset) hrules he

/-- A patch of a refresh leaves everything but the credentials. -/
theorem refreshKept (hF : F.Lowers) (hwire : patch.replaceHeaders = none)
    (hcheck : checkRefreshPatch patch target.kind = .ok ()) :
    RefreshKept target (applyRequestPatch F target patch).2 := by
  cases hrules : applyRules (rules F target patch) (.ofTarget target) with
  | error failure =>
    rw [applyRequestPatch_error hrules]
    exact ⟨rfl, rfl, rfl, rfl, rfl, rfl, rfl, rfl, fun _ ↦ rfl⟩
  | ok d =>
    rw [applyRequestPatch_ok hrules]
    obtain ⟨hframe, hurl⟩ := frame_of_refresh hF hwire hcheck hrules
    simp only [Draft.frame, Draft.ofTarget, Prod.mk.injEq] at hframe hurl
    obtain ⟨hmethod, hbody, hrange, hsegments, hcap, hname, hhint, hverified⟩ := hframe
    refine ⟨hmethod, hbody, ?_, ?_, hrange, ?_, ?_, ?_, fun hkind ↦ ?_⟩
    · simp [commit, hsegments]
    · simp [commit, hcap]
    · simp [commit, hname]
    · simp [commit, hhint]
    · simp [commit, hverified]
    · exact hurl ((fields_of_checkRefreshPatch hcheck).2.2.2.2.2.2.2.resolve_right hkind)

/-- Patches whose header maps have no two names alike keep a request safe. -/
theorem keepsSafe_of_plain (F : Foreign) (hF : F.Lowers) (target : RequestTarget)
    (hheaders : target.spec.extraHeaders.Unlike lowered) (htidy : Tidy target.spec.originHeaders)
    (patches : List RequestPatch) (hwire : ∀ patch ∈ patches, patch.replaceHeaders = none)
    (hplain : ∀ patch ∈ patches, patch.Plain) : KeepsSafe F target patches where
  failed found patch _ failure hfail := applyRequestPatch_failed hfail
  passed found patch hmeets outcome hok := by
    obtain ⟨before, after, rfl, rfl⟩ := hmeets
    have hreached := (Reached.refl target).applyPatches hF fun patch hmem ↦
      hwire patch (List.mem_append_left _ hmem)
    have hmem : patch ∈ before ++ patch :: after := by simp
    exact safeAfter_of_reached hF hheaders htidy (hwire patch hmem) (hplain patch hmem) hreached hok
  refreshed found patch hmeets hcheck := by
    obtain ⟨before, after, rfl, rfl⟩ := hmeets
    exact refreshKept hF (hwire patch (by simp)) hcheck
  reordered patches' h := applyPatches_reordered hplain h target

/-- An outside that knows one address; names are letters and hyphens. -/
def sampleForeign : Foreign where
  parseUrl url := if url = "https://example.com/a.bin" then some ⟨"https", some "example.com", none⟩
    else none
  parseHeaderName name := if name ≠ "" ∧ name.toList.all fun c ↦ c.isAlphanum || c = '-'
    then some (String.ofList (lowered name)) else none
  isHeaderValue value := value.toList.all fun c ↦ 0x20 ≤ c.toNat && c.toNat < 0x7F
  parseMethod method := if method ∈ ["GET", "POST", "OPTIONS"] then some method else none
  decodeBase64 _ := .error "Invalid padding"

/-- A first request. -/
def sampleTarget : RequestTarget where
  url := "https://example.com/a.bin"
  spec := ⟨"GET", "", "", .empty, none, ⟨false, false⟩, [], none⟩
  fileName := some "a.bin"
  segmentCount := some 1
  connectionCap := some 0
  hintFileSize := some 0
  rangeVerified := some true
  isResume := false
  kind := .http
  hasAudioTrack := false

/-- A header that is removed and set. -/
def tokenPatch : RequestPatch where
  userAgent := some "B"
  removeHeaders := some ["x-token"]
  setHeaders := some ⟨[("X-Token", "t"), ("User-Agent", "C")], by decide⟩

/-- Two spellings of a name, in the order they iterate. -/
def twicePatch : RequestPatch where
  setHeaders := some ⟨[("X-A", "1"), ("x-a", "2")], by decide⟩

private theorem lowers_sampleForeign : sampleForeign.Lowers := by
  intro name parsed h
  simp only [sampleForeign, Option.ite_none_right_eq_some, Option.some.injEq] at h
  rw [← h.2, String.toList_ofList]

private theorem plain_tokenPatch : tokenPatch.Plain where
  setHeaders headers h := by
    obtain rfl := Option.some.inj h
    simp only [HeaderMap.Plain]
    decide
  originHeaders rules h := by cases h

/-- A patch of a token for a foreign site. -/
theorem keepsSafe_of_plain_sample :
    sampleForeign.Lowers ∧ tokenPatch.Plain ∧ KeepsSafe sampleForeign sampleTarget [tokenPatch] :=
  ⟨lowers_sampleForeign, plain_tokenPatch,
    keepsSafe_of_plain sampleForeign lowers_sampleForeign sampleTarget .empty
      ⟨List.nodup_nil, List.forall_mem_nil _⟩ [tokenPatch] (List.forall_mem_singleton.mpr rfl)
      (List.forall_mem_singleton.mpr plain_tokenPatch)⟩

/-- Of two spellings of a name, the one that is iterated first loses its value. -/
theorem not_keepsSafe_twice :
    sampleForeign.Lowers ∧ sampleTarget.spec.extraHeaders.Unlike lowered ∧
      twicePatch.replaceHeaders = none ∧ ¬ KeepsSafe sampleForeign sampleTarget [twicePatch] := by
  refine ⟨lowers_sampleForeign, .empty, rfl, fun h ↦ ?_⟩
  have hpass : (applyRequestPatch sampleForeign sampleTarget twicePatch).1 =
      .ok ⟨["请求头"], false, false⟩ := rfl
  have hsafe := h.passed sampleTarget twicePatch ⟨[], [], rfl, rfl⟩ _ hpass
  have hget := hsafe.setHeaders _ rfl ("X-A", "1") (by decide)
  revert hget
  decide

end Engine.Intercept
