import FluxDown.Base.Fallible
import FluxDown.Engine.RequestPatch

/-!
# Patches keep a request safe

Library `Engine`. What a patch of a plugin can do to a request: a failed one nothing, a passed one
nothing to the host, the protocol and the headers the engine manages, and one made while a transfer
runs nothing but the credentials. A header map with two names that differ only in case is the
exception: the name that is iterated last wins, and which one that is, is not determined.
-/

namespace Engine.Intercept

open Base

variable {F : Foreign} {target : RequestTarget} {patch : RequestPatch} {d d' d'' : Draft}

/-! ## Rules that pass -/

/-- A demand succeeds when its condition holds. -/
theorem demand_eq_ok {p : Prop} [Decidable p] {text : String} {u : Unit} :
    demand p text = .ok u ↔ p := by
  unfold demand
  split <;> simp [*]

private theorem expect_eq_ok {α : Type} {value : Option α} {text : String} {a : α} :
    expect value text = .ok a ↔ value = some a := by
  cases value <;> simp [expect]

private theorem onField_eq_ok {α : Type} {field : Option α} {rule : α → Rule} :
    onField field rule d = .ok d' ↔
      (field = none ∧ d = d') ∨ ∃ value, field = some value ∧ rule value d = .ok d' := by
  cases field <;> simp [onField]

/-- A rule of a field that is not given changes nothing. -/
theorem onField_none {α : Type} {field : Option α} {rule : α → Rule} (h : field = none) :
    onField field rule d = .ok d := by
  rw [h, onField]

/-- What every rule keeps, a list of rules keeps. -/
theorem applyRules_induct {R : Draft → Draft → Prop} (hrefl : ∀ d, R d d)
    (htrans : ∀ d d' d'', R d d' → R d' d'' → R d d'') {rules : List Rule}
    (hrule : ∀ rule ∈ rules, ∀ d d', rule d = .ok d' → R d d') (h : applyRules rules d = .ok d') :
    R d d' := by
  induction rules generalizing d with
  | nil =>
    obtain rfl : d = d' := by simpa [applyRules, pure, Except.pure] using h
    exact hrefl d
  | cons rule rules ih =>
    rw [applyRules, List.foldlM_cons] at h
    obtain ⟨d₁, h₁, h₂⟩ := bind_eq_ok.mp h
    apply htrans _ _ _ (hrule rule List.mem_cons_self _ _ h₁)
    exact ih (fun rule' hmem ↦ hrule rule' (List.mem_cons_of_mem _ hmem)) h₂

/-! ## What headers keep -/

/-- The engine keeps the name to itself. -/
def Blocked (name : String) : Prop := lowered name ∈ blockedRequestHeaders.map String.toList

instance : DecidablePred Blocked := fun _ ↦ inferInstanceAs (Decidable (_ ∈ _))

/-- The outside reads a header name in lower case. -/
def Foreign.Lowers (F : Foreign) : Prop :=
  ∀ name parsed, F.parseHeaderName name = some parsed → parsed.toList = lowered name

/-- Headers stay without names alike, and no blocked name comes in. -/
structure HeadersKept (headers headers' : Headers) : Prop where
  unlike : headers.Unlike lowered → headers'.Unlike lowered
  blocked : ∀ name ∈ headers'.keys, Blocked name → name ∈ headers.keys

namespace HeadersKept

variable {headers headers' headers'' : Headers}

/-- Headers are kept as they are. -/
theorem refl (headers : Headers) : HeadersKept headers headers := ⟨id, fun _ h _ ↦ h⟩

/-- Headers that are kept twice are kept. -/
theorem trans (h : HeadersKept headers headers') (h' : HeadersKept headers' headers'') :
    HeadersKept headers headers'' where
  unlike hunlike := h'.unlike (h.unlike hunlike)
  blocked name hmem hblocked := h.blocked name (h'.blocked name hmem hblocked) hblocked

private theorem removeHeaderCi (headers : Headers) (name : String) :
    HeadersKept headers (removeHeaderCi headers name) where
  unlike h := h.removeLike name
  blocked _ hmem _ := (SortedMap.mem_keys_removeLike.mp hmem).2

private theorem putAllLike (headers : Headers) {entries : List (String × String)}
    (h : ∀ e ∈ entries, ¬ Blocked e.1) : HeadersKept headers (headers.putAllLike lowered entries) where
  unlike hunlike := hunlike.putAllLike entries
  blocked name hmem hblocked := by
    rcases SortedMap.mem_keys_putAllLike hmem with hmem | hmem
    · exact hmem
    · obtain ⟨e, he, rfl⟩ := List.mem_map.mp hmem
      exact absurd hblocked (h e he)

private theorem putLike (headers : Headers) {name : String} (value : String) (h : ¬ Blocked name) :
    HeadersKept headers (headers.putLike lowered name value) := by
  have hput := @putAllLike headers [(name, value)] (by simpa using h)
  exact hput

end HeadersKept

private theorem not_blocked_userAgent : ¬ Blocked "User-Agent" := by decide

/-- The user agent is removed under either of its spellings. -/
theorem removeHeaderCi_userAgent (headers : Headers) :
    removeHeaderCi headers "user-agent" = headers.removeLike lowered "User-Agent" := by
  have hlowered : lowered "user-agent" = lowered "User-Agent" := by decide
  rw [removeHeaderCi, SortedMap.removeLike, SortedMap.removeLike, hlowered]

private theorem not_blocked_of_validateHeader (hF : F.Lowers) {name value : String}
    (h : validateHeader F name value = .ok ()) : ¬ Blocked name := by
  obtain ⟨parsed, hparsed, h⟩ := bind_eq_ok.mp h
  obtain ⟨-, -, h⟩ := bind_eq_ok.mp h
  have hlowered := hF name parsed (expect_eq_ok.mp hparsed)
  intro hblocked
  rw [Blocked, ← hlowered] at hblocked
  obtain ⟨other, hmem, heq⟩ := List.mem_map.mp hblocked
  exact demand_eq_ok.mp h (String.toList_injective heq ▸ hmem)

private theorem not_blocked_of_validateHeaders (hF : F.Lowers) {headers : HeaderMap}
    (h : validateHeaders F headers = .ok ()) : ∀ e ∈ headers.entries, ¬ Blocked e.1 :=
  fun e he ↦ not_blocked_of_validateHeader hF (forM_eq_ok.mp h e he)

/-- Removing names leaves headers kept. -/
theorem spec_removeNamed (d : Draft) (name : String) :
    (removeNamed d name).spec.extraHeaders = removeHeaderCi d.spec.extraHeaders name := by
  unfold removeNamed
  split
  · rfl
  · split
    · rfl
    · split <;> rfl

/-- Setting an entry puts it and pins the fields it names. -/
theorem setNamed_eq (d : Draft) (e : String × String) :
    setNamed d e = { d with spec := { d.spec with
      extraHeaders := d.spec.extraHeaders.putLike lowered e.1 e.2
      pins := ⟨d.spec.pins.userAgent || isNamed e.1 "user-agent",
        d.spec.pins.referrer || isNamed e.1 "referer"⟩ } } := by
  obtain ⟨name, value⟩ := e
  have hboth : isNamed name "user-agent" = true → isNamed name "referer" = false := by
    intro h
    rw [isNamed, of_decide_eq_true h]
    decide
  simp only [setNamed]
  split
  · next h => simp [h, hboth h, Draft.withHeaders, Draft.pinUserAgent, removeHeaderCi,
      SortedMap.putLike]
  · next h =>
    split <;> simp [*, Draft.withHeaders, Draft.pinReferrer, removeHeaderCi, SortedMap.putLike]

private theorem extraHeaders_foldl_setNamed (d : Draft) (entries : List (String × String)) :
    (entries.foldl setNamed d).spec.extraHeaders =
      d.spec.extraHeaders.putAllLike lowered entries := by
  induction entries generalizing d with
  | nil => rfl
  | cons e entries ih =>
    rw [List.foldl_cons, ih, setNamed_eq]
    rfl

/-! ## What origin rules keep -/

/-- Origins stay named once, and the headers of every rule come from a rule of the same origin, or
from nothing. -/
structure OriginsKept (rules rules' : List (OriginHeaders Headers)) : Prop where
  once : (rules.map OriginHeaders.origin).Nodup → (rules'.map OriginHeaders.origin).Nodup
  headers : ∀ rule' ∈ rules', HeadersKept .empty rule'.headers ∨
    ∃ rule ∈ rules, rule.origin = rule'.origin ∧ HeadersKept rule.headers rule'.headers

namespace OriginsKept

variable {rules rules' rules'' : List (OriginHeaders Headers)}

/-- Origin rules are kept as they are. -/
theorem refl (rules : List (OriginHeaders Headers)) : OriginsKept rules rules where
  once h := h
  headers rule hmem := .inr ⟨rule, hmem, rfl, .refl _⟩

/-- Origin rules that are kept twice are kept. -/
theorem trans (h : OriginsKept rules rules') (h' : OriginsKept rules' rules'') :
    OriginsKept rules rules'' where
  once hnodup := h'.once (h.once hnodup)
  headers rule'' hmem'' := by
    rcases h'.headers rule'' hmem'' with hempty | ⟨rule', hmem', horigin', hkept'⟩
    · exact .inl hempty
    · rcases h.headers rule' hmem' with hempty | ⟨rule, hmem, horigin, hkept⟩
      · exact .inl (hempty.trans hkept')
      · exact .inr ⟨rule, hmem, horigin.trans horigin', hkept.trans hkept'⟩

end OriginsKept

private theorem map_origin_mergeOrigin (rules : List (OriginHeaders Headers)) (origin : String)
    (headers : HeaderMap) :
    (mergeOrigin rules origin headers).map OriginHeaders.origin =
      if origin ∈ rules.map OriginHeaders.origin then rules.map OriginHeaders.origin
      else rules.map OriginHeaders.origin ++ [origin] := by
  induction rules with
  | nil => simp [mergeOrigin]
  | cons rule rules ih =>
    unfold mergeOrigin
    split
    · next h => simp [h]
    · next h =>
      rw [List.map_cons, ih]
      simp only [List.map_cons, List.mem_cons, Ne.symm h, false_or]
      split <;> simp

/-- Merging headers without blocked names keeps the rules. -/
theorem OriginsKept.mergeOrigin (rules : List (OriginHeaders Headers)) (origin : String)
    {headers : HeaderMap} (h : ∀ e ∈ headers.entries, ¬ Blocked e.1) :
    OriginsKept rules (mergeOrigin rules origin headers) where
  once hnodup := by
    rw [map_origin_mergeOrigin]
    split
    · exact hnodup
    · next hnew => exact List.nodup_append'.mpr ⟨hnodup, List.nodup_singleton _, by simpa using hnew⟩
  headers := by
    induction rules with
    | nil =>
      intro rule' hmem
      obtain rfl := List.mem_singleton.mp hmem
      exact .inl (.putAllLike _ h)
    | cons rule rules ih =>
      intro rule' hmem
      unfold Intercept.mergeOrigin at hmem
      split at hmem
      · rcases List.mem_cons.mp hmem with rfl | hmem
        · exact .inr ⟨rule, List.mem_cons_self, rfl, .putAllLike _ h⟩
        · exact .inr ⟨rule', List.mem_cons_of_mem _ hmem, rfl, .refl _⟩
      · rcases List.mem_cons.mp hmem with rfl | hmem
        · exact .inr ⟨rule', List.mem_cons_self, rfl, .refl _⟩
        · rcases ih rule' hmem with hempty | ⟨other, hother, hkept⟩
          · exact .inl hempty
          · exact .inr ⟨other, List.mem_cons_of_mem _ hother, hkept⟩

/-- Every rule of a patch keeps the origin rules. -/
theorem OriginsKept.foldlM (hF : F.Lowers) {patches : List (OriginHeaders HeaderMap)}
    {rules rules' : List (OriginHeaders Headers)}
    (h : patches.foldlM (applyOriginRule F) rules = .ok rules') : OriginsKept rules rules' := by
  induction patches generalizing rules with
  | nil =>
    obtain rfl : rules = rules' := by simpa [pure, Except.pure] using h
    exact .refl _
  | cons rule patches ih =>
    rw [List.foldlM_cons] at h
    obtain ⟨rules₁, h₁, h₂⟩ := bind_eq_ok.mp h
    obtain ⟨origin, -, h₁⟩ := bind_eq_ok.mp h₁
    obtain ⟨_, hvalid, h₁⟩ := bind_eq_ok.mp h₁
    obtain rfl := Except.ok.inj h₁
    exact (OriginsKept.mergeOrigin rules origin (not_blocked_of_validateHeaders hF hvalid)).trans
      (ih h₂)

/-! ## What the rules keep -/

/-- The host, the protocol and the frame of headers and origin rules are kept. -/
structure Kept (F : Foreign) (target : RequestTarget) (d d' : Draft) : Prop where
  host : hostOf F d'.url = hostOf F d.url
  kind : d'.url = d.url ∨ protocolKind d'.url target.hasAudioTrack = target.kind
  headers : HeadersKept d.spec.extraHeaders d'.spec.extraHeaders
  origins : OriginsKept d.spec.originHeaders d'.spec.originHeaders

namespace Kept

/-- A draft is kept as it is. -/
theorem refl (d : Draft) : Kept F target d d := ⟨rfl, .inl rfl, .refl _, .refl _⟩

/-- A draft that is kept twice is kept. -/
theorem trans (h : Kept F target d d') (h' : Kept F target d' d'') : Kept F target d d'' where
  host := h'.host.trans h.host
  kind := by
    rcases h'.kind with heq | hkind
    · rw [heq]
      exact h.kind
    · exact .inr hkind
  headers := h.headers.trans h'.headers
  origins := h.origins.trans h'.origins

/-- A change of the headers only. -/
theorem of_headers (hurl : d'.url = d.url)
    (horigins : d'.spec.originHeaders = d.spec.originHeaders)
    (h : HeadersKept d.spec.extraHeaders d'.spec.extraHeaders) : Kept F target d d' where
  host := by rw [hurl]
  kind := .inl hurl
  headers := h
  origins := by
    rw [horigins]
    exact .refl _

end Kept

/-- The address, and with the method, the body, the window and the slots what only a first run may
rewrite. -/
def Draft.frame (d : Draft) : String × String × Option RequestBodyDecoded × Option Int ×
    Option Int × Option Int × Option String × Option Int × Option Bool :=
  (d.url, d.spec.method, d.spec.body, d.spec.maxRangeBytes, d.segments, d.cap, d.fileName, d.hint,
    d.verified)

/-- The address and the headers of all requests and of sites are not touched. -/
structure SameHeaders (d d' : Draft) : Prop where
  url : d'.url = d.url
  extraHeaders : d'.spec.extraHeaders = d.spec.extraHeaders
  originHeaders : d'.spec.originHeaders = d.spec.originHeaders

/-- A draft has the headers it has. -/
theorem SameHeaders.refl (d : Draft) : SameHeaders d d := ⟨rfl, rfl, rfl⟩

/-- A draft with the same headers is kept. -/
theorem SameHeaders.kept (h : SameHeaders d d') : Kept F target d d' :=
  .of_headers h.url h.originHeaders (by rw [h.extraHeaders]; exact .refl _)

section Rules

/-- The rule of the URL keeps the draft. -/
theorem applyUrl_keeps (h : applyUrl F target patch d = .ok d') :
    Kept F target d d' ∧ d'.frame.2 = d.frame.2 := by
  rcases onField_eq_ok.mp h with ⟨-, rfl⟩ | ⟨next, -, h⟩
  · exact ⟨.refl _, rfl⟩
  · obtain ⟨-, -, h⟩ := bind_eq_ok.mp h
    obtain ⟨parsed, hparsed, h⟩ := bind_eq_ok.mp h
    obtain ⟨_, hhost, h⟩ := bind_eq_ok.mp h
    obtain ⟨_, hkind, h⟩ := bind_eq_ok.mp h
    obtain rfl := Except.ok.inj h
    have hnext : hostOf F next = parsed.host := by
      rw [hostOf, expect_eq_ok.mp hparsed, Option.bind_some]
    refine ⟨⟨?_, .inr (demand_eq_ok.mp hkind), .refl _, .refl _⟩, rfl⟩
    show hostOf F next = hostOf F d.url
    rw [hnext, demand_eq_ok.mp hhost]

private theorem applyMethod_keeps (h : applyMethod F target patch d = .ok d') :
    SameHeaders d d' := by
  rcases onField_eq_ok.mp h with ⟨-, rfl⟩ | ⟨method, -, h⟩
  · exact .refl _
  · obtain ⟨-, -, h⟩ := bind_eq_ok.mp h
    obtain ⟨parsed, -, h⟩ := bind_eq_ok.mp h
    obtain ⟨-, -, h⟩ := bind_eq_ok.mp h
    obtain rfl := Except.ok.inj h
    exact ⟨rfl, rfl, rfl⟩

private theorem applyBody_keeps (h : applyBody F target patch d = .ok d') : SameHeaders d d' := by
  unfold applyBody at h
  split at h
  · obtain ⟨-, -, h⟩ := bind_eq_ok.mp h
    obtain ⟨body, -, h⟩ := bind_eq_ok.mp h
    obtain rfl := Except.ok.inj h
    exact ⟨rfl, rfl, rfl⟩
  · obtain rfl := Except.ok.inj h
    exact .refl _

/-- The rule of cookies keeps the draft. -/
theorem applyCookies_keeps (h : applyCookies target patch d = .ok d') :
    Kept F target d d' ∧ d'.frame = d.frame := by
  rcases onField_eq_ok.mp h with ⟨-, rfl⟩ | ⟨cookies, -, h⟩
  · exact ⟨.refl _, rfl⟩
  · obtain ⟨-, -, h⟩ := bind_eq_ok.mp h
    obtain rfl := Except.ok.inj h
    exact ⟨.of_headers rfl rfl (.removeHeaderCi _ _), rfl⟩

/-- The rule of the referrer keeps the draft. -/
theorem applyReferrer_keeps (h : applyReferrer target patch d = .ok d') :
    Kept F target d d' ∧ d'.frame = d.frame := by
  rcases onField_eq_ok.mp h with ⟨-, rfl⟩ | ⟨referrer, -, h⟩
  · exact ⟨.refl _, rfl⟩
  · obtain ⟨-, -, h⟩ := bind_eq_ok.mp h
    obtain ⟨-, -, h⟩ := bind_eq_ok.mp h
    obtain rfl := Except.ok.inj h
    exact ⟨.of_headers rfl rfl (.removeHeaderCi _ _), rfl⟩

/-- The rule of the user agent keeps the draft. -/
theorem applyUserAgent_keeps (h : applyUserAgent F target patch d = .ok d') :
    Kept F target d d' ∧ d'.frame = d.frame := by
  rcases onField_eq_ok.mp h with ⟨-, rfl⟩ | ⟨ua, -, h⟩
  · exact ⟨.refl _, rfl⟩
  · obtain ⟨-, -, h⟩ := bind_eq_ok.mp h
    obtain ⟨-, -, h⟩ := bind_eq_ok.mp h
    obtain rfl := Except.ok.inj h
    refine ⟨.of_headers rfl rfl ?_, rfl⟩
    show HeadersKept _ ((removeHeaderCi d.spec.extraHeaders "user-agent").insert "User-Agent" ua)
    rw [removeHeaderCi_userAgent]
    exact .putLike _ ua not_blocked_userAgent

private theorem removeNamed_keeps (d : Draft) (name : String) :
    Kept F target d (removeNamed d name) ∧ (removeNamed d name).frame = d.frame := by
  have hheaders : HeadersKept d.spec.extraHeaders (removeNamed d name).spec.extraHeaders := by
    rw [spec_removeNamed]
    exact .removeHeaderCi _ _
  unfold removeNamed at hheaders ⊢
  split
  · exact ⟨.of_headers rfl rfl (.removeHeaderCi _ _), rfl⟩
  · split
    · exact ⟨.of_headers rfl rfl (.removeHeaderCi _ _), rfl⟩
    · split <;> exact ⟨.of_headers rfl rfl (.removeHeaderCi _ _), rfl⟩

private theorem foldl_removeNamed_keeps (d : Draft) (names : List String) :
    Kept F target d (names.foldl removeNamed d) ∧
      (names.foldl removeNamed d).frame = d.frame := by
  induction names generalizing d with
  | nil => exact ⟨.refl _, rfl⟩
  | cons name names ih =>
    have hstep := @removeNamed_keeps F target d name
    have hrest := ih (removeNamed d name)
    exact ⟨hstep.1.trans hrest.1, hrest.2.trans hstep.2⟩

/-- The rule that removes headers keeps the draft. -/
theorem applyRemoveHeaders_keeps (h : applyRemoveHeaders target patch d = .ok d') :
    Kept F target d d' ∧ d'.frame = d.frame := by
  rcases onField_eq_ok.mp h with ⟨-, rfl⟩ | ⟨names, -, h⟩
  · exact ⟨.refl _, rfl⟩
  · obtain ⟨-, -, h⟩ := bind_eq_ok.mp h
    obtain rfl := Except.ok.inj h
    have hfold := @foldl_removeNamed_keeps F target d names
    exact ⟨hfold.1.trans (.of_headers rfl rfl (.refl _)), hfold.2⟩

/-- Setting entries changes headers and pins only. -/
theorem foldl_setNamed_frame (d : Draft) (entries : List (String × String)) :
    (entries.foldl setNamed d).url = d.url ∧
      (entries.foldl setNamed d).spec.originHeaders = d.spec.originHeaders ∧
      (entries.foldl setNamed d).frame = d.frame := by
  induction entries generalizing d with
  | nil => exact ⟨rfl, rfl, .refl _⟩
  | cons e entries ih =>
    have hstep := ih (setNamed d e)
    rw [setNamed_eq] at hstep
    rw [List.foldl_cons, setNamed_eq]
    exact hstep

/-- The rule that sets headers keeps the draft. -/
theorem applySetHeaders_keeps (hF : F.Lowers) (h : applySetHeaders F target patch d = .ok d') :
    Kept F target d d' ∧ d'.frame = d.frame := by
  rcases onField_eq_ok.mp h with ⟨-, rfl⟩ | ⟨headers, -, h⟩
  · exact ⟨.refl _, rfl⟩
  · obtain ⟨-, -, h⟩ := bind_eq_ok.mp h
    obtain ⟨_, hvalid, h⟩ := bind_eq_ok.mp h
    obtain rfl := Except.ok.inj h
    have hframe := foldl_setNamed_frame d headers.entries
    refine ⟨.of_headers hframe.1 hframe.2.1 ?_, hframe.2.2⟩
    show HeadersKept _ (headers.entries.foldl setNamed d).spec.extraHeaders
    rw [extraHeaders_foldl_setNamed]
    exact .putAllLike _ (not_blocked_of_validateHeaders hF hvalid)

/-- The rule of headers of an origin keeps the draft. -/
theorem applyOriginHeaders_keeps (hF : F.Lowers)
    (h : applyOriginHeaders F target patch d = .ok d') :
    Kept F target d d' ∧ d'.frame = d.frame ∧ d'.spec.extraHeaders = d.spec.extraHeaders := by
  rcases onField_eq_ok.mp h with ⟨-, rfl⟩ | ⟨rules, -, h⟩
  · exact ⟨.refl _, rfl, rfl⟩
  · obtain ⟨-, -, h⟩ := bind_eq_ok.mp h
    obtain ⟨-, -, h⟩ := bind_eq_ok.mp h
    obtain ⟨merged, hmerged, h⟩ := bind_eq_ok.mp h
    obtain rfl := Except.ok.inj h
    exact ⟨⟨rfl, .inl rfl, .refl _, .foldlM hF hmerged⟩, rfl, rfl⟩

private theorem applySegments_keeps (h : applySegments patch d = .ok d') : SameHeaders d d' := by
  rcases onField_eq_ok.mp h with ⟨-, rfl⟩ | ⟨n, -, h⟩
  · exact .refl _
  · obtain ⟨-, -, h⟩ := bind_eq_ok.mp h
    obtain rfl := Except.ok.inj h
    split <;> exact ⟨rfl, rfl, rfl⟩

private theorem applyMaxConnections_keeps (h : applyMaxConnections patch d = .ok d') :
    SameHeaders d d' := by
  rcases onField_eq_ok.mp h with ⟨-, rfl⟩ | ⟨n, -, h⟩
  · exact .refl _
  · obtain ⟨-, -, h⟩ := bind_eq_ok.mp h
    obtain rfl := Except.ok.inj h
    split <;> exact ⟨rfl, rfl, rfl⟩

private theorem applyMaxRangeBytes_keeps (h : applyMaxRangeBytes target patch d = .ok d') :
    SameHeaders d d' := by
  rcases onField_eq_ok.mp h with ⟨-, rfl⟩ | ⟨n, -, h⟩
  · exact .refl _
  · obtain ⟨-, -, h⟩ := bind_eq_ok.mp h
    obtain ⟨-, -, h⟩ := bind_eq_ok.mp h
    obtain rfl := Except.ok.inj h
    exact ⟨rfl, rfl, rfl⟩

private theorem applyFileName_keeps (h : applyFileName patch d = .ok d') : SameHeaders d d' := by
  rcases onField_eq_ok.mp h with ⟨-, rfl⟩ | ⟨name, -, h⟩
  · exact .refl _
  · obtain ⟨-, -, h⟩ := bind_eq_ok.mp h
    obtain rfl := Except.ok.inj h
    split <;> exact ⟨rfl, rfl, rfl⟩

private theorem applyEphemeral_keeps (h : applyEphemeral target patch d = .ok d') :
    SameHeaders d d' := by
  obtain ⟨-, -, h⟩ := bind_eq_ok.mp h
  split at h
  · obtain ⟨-, -, h⟩ := bind_eq_ok.mp h
    obtain ⟨-, -, h⟩ := bind_eq_ok.mp h
    obtain rfl := Except.ok.inj h
    dsimp only
    split <;> exact ⟨rfl, rfl, rfl⟩
  · obtain rfl := Except.ok.inj h
    exact .refl _

end Rules

/-- Every rule of a patch from the wire keeps the request. -/
theorem kept_of_mem_rules (hF : F.Lowers) (hwire : patch.replaceHeaders = none) {rule : Rule}
    (hrule : rule ∈ rules F target patch) (h : rule d = .ok d') : Kept F target d d' := by
  simp only [rules, List.mem_cons, List.not_mem_nil, or_false] at hrule
  rcases hrule with rfl | rfl | rfl | rfl | rfl | rfl | rfl | rfl | rfl | rfl | rfl | rfl | rfl |
    rfl | rfl
  · rw [applyReplaceHeaders, onField_none hwire] at h
    obtain rfl := Except.ok.inj h
    exact .refl _
  · exact (applyUrl_keeps h).1
  · exact (applyMethod_keeps h).kept
  · exact (applyBody_keeps h).kept
  · exact (applyCookies_keeps h).1
  · exact (applyReferrer_keeps h).1
  · exact (applyUserAgent_keeps h).1
  · exact (applyRemoveHeaders_keeps h).1
  · exact (applySetHeaders_keeps hF h).1
  · exact (applyOriginHeaders_keeps hF h).1
  · exact (applySegments_keeps h).kept
  · exact (applyMaxConnections_keeps h).kept
  · exact (applyMaxRangeBytes_keeps h).kept
  · exact (applyFileName_keeps h).kept
  · exact (applyEphemeral_keeps h).kept

/-- All rules together keep the draft. -/
theorem kept_of_applyRules (hF : F.Lowers) (hwire : patch.replaceHeaders = none)
    (h : applyRules (rules F target patch) d = .ok d') : Kept F target d d' :=
  applyRules_induct (fun _ ↦ .refl _) (fun _ _ _ ↦ .trans)
    (fun _ hrule _ _ ↦ kept_of_mem_rules hF hwire hrule) h

/-- The rules up to the headers, and those after them. -/
theorem applyRules_append (rules rules' : List Rule) (d : Draft) :
    applyRules (rules ++ rules') d = applyRules rules d >>= applyRules rules' :=
  List.foldlM_append

/-- No two names of the map are alike. -/
def HeaderMap.Plain (headers : HeaderMap) : Prop :=
  headers.entries.Pairwise fun e e' ↦ lowered e.1 ≠ lowered e'.1

/-- The rules after the headers are set do not touch the headers of all requests. -/
theorem extraHeaders_applyRules_drop (hF : F.Lowers)
    (h : applyRules ((rules F target patch).drop 9) d = .ok d') :
    d'.spec.extraHeaders = d.spec.extraHeaders := by
  refine @applyRules_induct _ _ (fun d d' ↦ d'.spec.extraHeaders = d.spec.extraHeaders)
    (fun _ ↦ rfl) (fun _ _ _ h h' ↦ h'.trans h) _ (fun rule hrule d d' h ↦ ?_) h
  simp only [rules, List.drop_succ_cons, List.drop_zero, List.mem_cons, List.not_mem_nil,
    or_false] at hrule
  rcases hrule with rfl | rfl | rfl | rfl | rfl | rfl
  · exact (applyOriginHeaders_keeps hF h).2.2
  · exact (applySegments_keeps h).extraHeaders
  · exact (applyMaxConnections_keeps h).extraHeaders
  · exact (applyMaxRangeBytes_keeps h).extraHeaders
  · exact (applyFileName_keeps h).extraHeaders
  · exact (applyEphemeral_keeps h).extraHeaders

/-- Every entry that is set has its value at the end. -/
theorem get?_of_setHeaders (hF : F.Lowers) {headers : HeaderMap}
    (hset : patch.setHeaders = some headers) (hplain : headers.Plain)
    (h : applyRules (rules F target patch) d = .ok d') {name value : String}
    (hmem : (name, value) ∈ headers.entries) : d'.spec.extraHeaders.get? name = some value := by
  have hsplit : rules F target patch = (rules F target patch).take 8 ++
      ([applySetHeaders F target patch] ++ (rules F target patch).drop 9) := rfl
  rw [hsplit, applyRules_append] at h
  obtain ⟨d₁, -, h⟩ := bind_eq_ok.mp h
  rw [applyRules_append] at h
  obtain ⟨d₂, h₂, h⟩ := bind_eq_ok.mp h
  rw [extraHeaders_applyRules_drop hF h]
  obtain ⟨d₃, h₃, h₂⟩ := bind_eq_ok.mp h₂
  obtain rfl : d₃ = d₂ := Except.ok.inj h₂
  have hfield : applySetHeaders F target patch d₁ = .ok d₃ := h₃
  rw [applySetHeaders, hset] at hfield
  obtain ⟨-, -, h₃⟩ := bind_eq_ok.mp hfield
  obtain ⟨-, -, h₃⟩ := bind_eq_ok.mp h₃
  obtain rfl := Except.ok.inj h₃
  show (headers.entries.foldl setNamed d₁).spec.extraHeaders.get? name = some value
  rw [extraHeaders_foldl_setNamed]
  exact SortedMap.get?_putAllLike_of_mem hplain hmem

end Engine.Intercept
