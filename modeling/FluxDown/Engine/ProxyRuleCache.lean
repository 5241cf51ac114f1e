import FluxDown.Engine.ProxyRules
import FluxDown.Engine.ProxyUrlRoundTrip

/-!
# The cache of compiled rules

Library `Engine`. The rules that were compiled last are kept under a key, the rules text and the
manual fields in one text. Nothing in the fields is escaped, so that two configurations can have one
key.
-/

namespace Engine.Proxy

open Base Link

/-- The key of the rules (`src/native/engine/src/proxy_rules.rs:29`). -/
def proxyRulesKey : String := "proxy_rules"

/-- The text that stands for a configuration (`proxy_rules.rs:494–501`). -/
def cacheKey (raw : String) (manual : ProxyConfig) : String :=
  raw ++ "\x1f" ++ manual.proxyType.asStr ++ "|" ++ manual.host ++ "|" ++ toString manual.port ++
    "|" ++ manual.username ++ "|" ++ manual.password

section Cache

variable {Regex Url : Type} (crates : Crates Regex Url)

/-- The rules of a configuration, and what the cache has then (`proxy_rules.rs:486–518`). -/
def rulesFromConfigMap (last : Option (String × ProxyRuleSet Regex)) (map : String → Option String)
    (manual : ProxyConfig) : Option (ProxyRuleSet Regex) × Option (String × ProxyRuleSet Regex) :=
  match map proxyRulesKey with
  | none => (none, last)
  | some raw =>
    if (trim raw.toList).isEmpty then (none, last)
    else
      let key := cacheKey raw manual
      match last.filter fun cached ↦ cached.1 = key with
      | some cached => (cached.2.nonEmpty, last)
      | none =>
        let set := ProxyRuleSet.compile crates raw manual
        (set.nonEmpty, some (key, set))

/-- The manual fields of a configuration (`src/native/engine/src/proxy_config.rs:200–231`). -/
def manualFields (map : String → Option String) : ProxyConfig where
  mode := .manual
  proxyType := ((map "proxy_type").bind ProxyType.parseStr).getD .http
  host := (map "proxy_host").getD ""
  port := ((map "proxy_port").bind fun port ↦ parseU16 port.toList).getD 0
  username := (map "proxy_username").getD ""
  password := (map "proxy_password").getD ""

/-- A call for rules. -/
structure Call where
  map : String → Option String
  manual : ProxyConfig

/-- The answers to calls, one after another. -/
def answers : Option (String × ProxyRuleSet Regex) → List Call → List (Option (ProxyRuleSet Regex))
  | _, [] => []
  | last, call :: calls =>
    let (rules, last) := rulesFromConfigMap crates last call.map call.manual
    rules :: answers last calls

/-- The rules text of a call, if there is something in it. -/
def Call.text (call : Call) : Option String :=
  (call.map proxyRulesKey).filter fun raw ↦ !(trim raw.toList).isEmpty

/-- The answer that a call is to have: its own rules. -/
def Call.compiled (call : Call) : Option (ProxyRuleSet Regex) :=
  call.text.bind fun raw ↦ (ProxyRuleSet.compile crates raw call.manual).nonEmpty

/-! ## Answers are right where the key tells calls apart -/

/-- What calls with rules text ask for, in order. -/
def asked (calls : List Call) : List (String × ProxyConfig) :=
  calls.filterMap fun call ↦ call.text.map fun raw ↦ (raw, call.manual)

/-- Two configurations have one key only if they have the same rules text and the same complete
manual proxy. -/
def Distinct (before after : String × ProxyConfig) : Prop :=
  cacheKey before.1 before.2 = cacheKey after.1 after.2 →
    before.1 = after.1 ∧ manualEgress before.2 = manualEgress after.2

/-- The rules of what a call asks for. -/
def compileAsked (asked : String × ProxyConfig) : ProxyRuleSet Regex :=
  ProxyRuleSet.compile crates asked.1 asked.2

/-- What the cache has after a call for rules. -/
def slot (before : String × ProxyConfig) : String × ProxyRuleSet Regex :=
  (cacheKey before.1 before.2, compileAsked crates before)

private theorem ProxyRuleSet.nonEmpty_injective :
    Function.Injective (@ProxyRuleSet.nonEmpty Regex) := by
  rintro ⟨rules⟩ ⟨rules'⟩ h
  cases rules <;> cases rules' <;> simp_all [ProxyRuleSet.nonEmpty]

/-- Of the manual fields, only the complete proxy goes into rules. -/
theorem compile_congr {manual manual' : ProxyConfig} (h : manualEgress manual = manualEgress manual')
    (raw : String) : ProxyRuleSet.compile crates raw manual = ProxyRuleSet.compile crates raw manual' := by
  have hegress : egressOf crates manual = egressOf crates manual' := by
    ext1 rule
    unfold egressOf
    rw [h]
  have hrule : compileRule crates manual = compileRule crates manual' := by
    ext1 index
    ext1 rule
    unfold compileRule
    rw [hegress]
  unfold ProxyRuleSet.compile
  rw [hrule]

private theorem compileAsked_of_distinct {before after : String × ProxyConfig}
    (h : Distinct before after)
    (hkey : cacheKey before.1 before.2 = cacheKey after.1 after.2) :
    compileAsked crates before = compileAsked crates after := by
  obtain ⟨hraw, hmanual⟩ := h hkey
  unfold compileAsked
  rw [hraw, compile_congr crates hmanual]

/-! ## One call -/

section Step

variable {call : Call} {raw : String} (last : Option (String × ProxyRuleSet Regex))

private theorem rulesFromConfigMap_of_text_none (h : call.text = none) :
    rulesFromConfigMap crates last call.map call.manual = (none, last) := by
  unfold Call.text at h
  unfold rulesFromConfigMap
  cases hmap : call.map proxyRulesKey with
  | none => rfl
  | some raw =>
    have hempty : (trim raw.toList).isEmpty = true := by simpa [hmap] using h
    exact if_pos hempty

private theorem text_eq_some (h : call.text = some raw) :
    call.map proxyRulesKey = some raw ∧ (trim raw.toList).isEmpty = false := by
  obtain ⟨hmap, hsome⟩ := Option.filter_eq_some_iff.mp h
  exact ⟨hmap, by simpa using hsome⟩

/-- With the key in the cache, its rules are the answer. -/
theorem rulesFromConfigMap_of_hit (h : call.text = some raw) (set : ProxyRuleSet Regex) :
    rulesFromConfigMap crates (some (cacheKey raw call.manual, set)) call.map call.manual =
      (set.nonEmpty, some (cacheKey raw call.manual, set)) := by
  obtain ⟨hmap, hempty⟩ := text_eq_some h
  have hfilter : (some (cacheKey raw call.manual, set)).filter
      (fun cached ↦ cached.1 = cacheKey raw call.manual) =
        some (cacheKey raw call.manual, set) := by
    simp [Option.filter]
  simp [rulesFromConfigMap, hmap, hempty, hfilter]

/-- With another key in the cache, the rules are compiled and kept. -/
theorem rulesFromConfigMap_of_miss (h : call.text = some raw)
    (hmiss : ∀ cached ∈ last, cached.1 ≠ cacheKey raw call.manual) :
    rulesFromConfigMap crates last call.map call.manual =
      ((compileAsked crates (raw, call.manual)).nonEmpty, some (slot crates (raw, call.manual))) := by
  obtain ⟨hmap, hempty⟩ := text_eq_some h
  have hfilter : (last.filter fun cached ↦ cached.1 = cacheKey raw call.manual) = none := by
    simpa using hmiss
  simp [rulesFromConfigMap, hmap, hempty, hfilter, slot, compileAsked]

end Step

/-! ## All calls -/

/-- The cache has what was asked for last. Answers are right just when no two neighbours have one key
and other rules. -/
theorem answers_iff_of_slot (before : Option (String × ProxyConfig)) (calls : List Call) :
    answers crates (before.map (slot crates)) calls = calls.map (Call.compiled crates) ↔
      (before.toList ++ asked calls).IsChain fun before after ↦
        cacheKey before.1 before.2 = cacheKey after.1 after.2 →
          compileAsked crates before = compileAsked crates after := by
  induction calls generalizing before with
  | nil => cases before <;> simp [answers, asked]
  | cons call calls ih =>
    cases htext : call.text with
    | none =>
      have hasked : asked (call :: calls) = asked calls := by simp [asked, htext]
      have hcompiled : call.compiled crates = none := by simp [Call.compiled, htext]
      rw [answers, rulesFromConfigMap_of_text_none crates _ htext, List.map_cons, hcompiled, hasked,
        List.cons_inj_right, ih before]
    | some raw =>
      have hasked : asked (call :: calls) = (raw, call.manual) :: asked calls := by
        simp [asked, htext]
      have hcompiled : call.compiled crates =
          (compileAsked crates (raw, call.manual)).nonEmpty := by
        simp [Call.compiled, htext, compileAsked]
      rw [answers, List.map_cons, hcompiled, hasked]
      cases before with
      | none =>
        rw [rulesFromConfigMap_of_miss crates _ htext (by simp), List.cons_inj_right]
        exact ih (some (raw, call.manual))
      | some before =>
        have hrest := ih (some (raw, call.manual))
        rw [Option.toList_some, List.singleton_append, List.isChain_cons_cons]
        by_cases hkey : cacheKey before.1 before.2 = cacheKey raw call.manual
        · rw [Option.map_some, slot, hkey, rulesFromConfigMap_of_hit crates htext, List.cons_eq_cons,
            ProxyRuleSet.nonEmpty_injective.eq_iff]
          constructor
          · rintro ⟨hsame, hanswers⟩
            rw [hsame] at hanswers
            exact ⟨fun _ ↦ hsame, hrest.mp hanswers⟩
          · rintro ⟨hsame, hchain⟩
            rw [hsame rfl]
            exact ⟨rfl, hrest.mpr hchain⟩
        · rw [rulesFromConfigMap_of_miss crates _ htext (by simpa [slot] using hkey),
            List.cons_inj_right]
          constructor
          · exact fun hanswers ↦ ⟨fun hsame ↦ absurd hsame hkey, hrest.mp hanswers⟩
          · exact fun hchain ↦ hrest.mpr hchain.2

/-- Where the key tells configurations apart, every call has its own rules. Otherwise it is the rules
that decide. -/
theorem answers_of_distinct (calls : List Call) :
    ((asked calls).IsChain Distinct →
      answers crates none calls = calls.map (Call.compiled crates)) ∧
    (answers crates none calls = calls.map (Call.compiled crates) ↔
      (asked calls).IsChain fun before after ↦
        cacheKey before.1 before.2 = cacheKey after.1 after.2 →
          compileAsked crates before = compileAsked crates after) := by
  have hiff := answers_iff_of_slot crates none calls
  refine ⟨fun hdistinct ↦ hiff.mpr ?_, hiff⟩
  exact hdistinct.imp fun _ _ hsame ↦ compileAsked_of_distinct crates hsame

/-! ## Fields without separators -/

private theorem append_cons_inj {c : Char} {before before' after after' : List Char}
    (h : c ∉ before)
    (h' : c ∉ before') (heq : before ++ c :: after = before' ++ c :: after') :
    before = before' ∧ after = after' := by
  have hsplit := splitOnce_append h after (show [c].head? = some c from rfl)
  have hsplit' := splitOnce_append h' after' (show [c].head? = some c from rfl)
  simp only [List.append_assoc, List.singleton_append] at hsplit hsplit'
  rw [heq, hsplit'] at hsplit
  obtain ⟨hbefore, hafter⟩ := Prod.mk.inj (Option.some.inj hsplit)
  exact ⟨hbefore.symm, hafter.symm⟩

/-- Manual fields in which the separators of the key do not occur, but for a bar in the password. -/
structure Plain (manual : ProxyConfig) : Prop where
  host : '|' ∉ manual.host.toList ∧ '\x1f' ∉ manual.host.toList
  username : '|' ∉ manual.username.toList ∧ '\x1f' ∉ manual.username.toList
  password : '\x1f' ∉ manual.password.toList

/-- The fields of the key. -/
def fieldsText (manual : ProxyConfig) : List Char :=
  manual.proxyType.asStr.toList ++ '|' :: (manual.host.toList ++
    '|' :: ((Nat.toDigits 10 manual.port) ++ '|' :: (manual.username.toList ++
      '|' :: manual.password.toList)))

private theorem toList_cacheKey (raw : String) (manual : ProxyConfig) :
    (cacheKey raw manual).toList = raw.toList ++ '\x1f' :: fieldsText manual := by
  simp [cacheKey, fieldsText]

private theorem notMem_digits {c : Char} (h : c.isDigit = false) (n : Nat) :
    c ∉ Nat.toDigits 10 n := by
  intro hmem
  rw [Nat.isDigit_of_mem_toDigits (by decide) (by decide) hmem] at h
  cases h

private theorem notMem_asStr (proxyType : ProxyType) :
    '|' ∉ proxyType.asStr.toList ∧ '\x1f' ∉ proxyType.asStr.toList := by
  cases proxyType <;> decide

private theorem Plain.notMem_fieldsText {manual : ProxyConfig} (h : Plain manual) :
    '\x1f' ∉ fieldsText manual := by
  have hdigits := notMem_digits (show ('\x1f' : Char).isDigit = false by decide) manual.port
  simp [fieldsText, notMem_asStr, hdigits, h.host.2, h.username.2, h.password]

private theorem asStr_injective {proxyType proxyType' : ProxyType}
    (h : proxyType.asStr.toList = proxyType'.asStr.toList) : proxyType = proxyType' := by
  revert h
  cases proxyType <;> cases proxyType' <;> decide

private theorem Plain.fieldsText_inj {manual manual' : ProxyConfig} (h : Plain manual)
    (h' : Plain manual')
    (heq : fieldsText manual = fieldsText manual') :
    manualEgress manual = manualEgress manual' := by
  have hdigit : ('|' : Char).isDigit = false := by decide
  obtain ⟨htype, hrest⟩ := append_cons_inj (notMem_asStr _).1 (notMem_asStr _).1 heq
  obtain ⟨hhost, hrest⟩ := append_cons_inj h.host.1 h'.host.1 hrest
  obtain ⟨hport, hrest⟩ := append_cons_inj (notMem_digits hdigit _) (notMem_digits hdigit _) hrest
  obtain ⟨husername, hpassword⟩ := append_cons_inj h.username.1 h'.username.1 hrest
  have hport' : manual.port = manual'.port := by
    rw [← Nat.ofDigitChars_ten_toDigits (n := manual.port), hport, Nat.ofDigitChars_ten_toDigits]
  unfold manualEgress
  rw [asStr_injective htype, String.toList_inj.mp hhost, hport', String.toList_inj.mp husername,
    String.toList_inj.mp hpassword]

private theorem distinct_of_plain {before after : String × ProxyConfig} (h : Plain before.2)
    (h' : Plain after.2) : Distinct before after := by
  intro hkey
  have htext := congrArg String.toList hkey
  rw [toList_cacheKey, toList_cacheKey] at htext
  have hsplit := @rsplitOnce_append _ before.1.toList _ h.notMem_fieldsText
  rw [htext, rsplitOnce_append h'.notMem_fieldsText] at hsplit
  obtain ⟨hraw, hfields⟩ := Prod.mk.inj (Option.some.inj hsplit)
  exact ⟨(String.toList_inj.mp hraw).symm, h.fieldsText_inj h' hfields.symm⟩

/-- Without separators in the manual fields, every call has its own rules. -/
theorem answers_of_plain {calls : List Call} (h : ∀ call ∈ calls, Plain call.manual) :
    answers crates none calls = calls.map (Call.compiled crates) := by
  apply (answers_of_distinct crates calls).1
  have hplain : ∀ asking ∈ asked calls, Plain asking.2 := by
    intro asking hmem
    obtain ⟨call, hcall, hasking⟩ := List.mem_filterMap.mp hmem
    obtain ⟨raw, -, rfl⟩ := Option.map_eq_some_iff.mp hasking
    exact h call hcall
  have hpairwise : (asked calls).Pairwise Distinct := by
    rw [List.pairwise_iff_forall_sublist]
    intro before after hsublist
    apply distinct_of_plain
    · exact hplain before (hsublist.subset List.mem_cons_self)
    · exact hplain after (hsublist.subset (List.mem_cons_of_mem _ List.mem_cons_self))
  exact hpairwise.isChain

end Cache

/-- A configuration value with one rule, for the manual proxy. -/
def manualRaw : String :=
  "[\x7b\"id\":\"m\",\"match\":\"domain\",\"pattern\":\"10.0.0.1\",\"action\":\"manual\"\x7d]"

/-- Its value; no URL is parsed. -/
def manualCrates : Crates String String where
  fromStr raw :=
    if raw = manualRaw then
      .ok (.array [.object [("id", .string "m"), ("match", .string "domain"),
        ("pattern", .string "10.0.0.1"), ("action", .string "manual")]])
    else .error "expected value at line 1 column 1"
  jsonText _ := ""
  buildRegex pattern := .ok pattern
  isMatch _ _ := false
  parseUrl _ := none
  urlScheme _ := "http"
  urlHost _ := none
  urlText url := url

/-- The call of a configuration with credentials. -/
def manualCall (username password : String) : Call where
  map := configMap
  manual := manualFields configMap
where
  configMap (key : String) : Option String :=
    [(proxyRulesKey, manualRaw), ("proxy_type", "http"), ("proxy_host", "10.0.0.2"),
      ("proxy_port", "8080"), ("proxy_username", username), ("proxy_password", password)].lookup key

/-- A bar moves from the user name to the password, and the rules still have the credentials of the
call before. -/
theorem answers_manualCall :
    ¬ ∀ calls, answers manualCrates none calls = calls.map (Call.compiled manualCrates) := by
  intro h
  have hsame := congrArg (List.map fun rules ↦ rules.map fun set ↦ set.rules.map CompiledRule.egress)
    (h [manualCall "a|b" "c", manualCall "a" "b|c"])
  revert hsame
  decide +kernel

end Engine.Proxy
