import FluxDown.Engine.ProxyRules
import FluxDown.Engine.ProxyUrlRoundTrip

/-!
# Strict and lenient reading agree

Library `Engine`. A configuration value without issues is compiled without loss: the enabled rules
are kept in their order, and the proxy of each custom rule is the one that is written. The first of
them that accepts a site decides.
-/

namespace Engine.Proxy

open Base Link

/-! ## Custom proxies -/

private theorem splitOnce_inv {separator : List Char} : ∀ {text before after : List Char},
    splitOnce separator text = some (before, after) → text = before ++ separator ++ after
  | [], before, after, h => by
    unfold splitOnce at h
    split at h
    · next hempty =>
      obtain ⟨rfl, rfl⟩ := Prod.mk.inj (Option.some.inj h)
      simpa using hempty
    · cases h
  | c :: text, before, after, h => by
    unfold splitOnce at h
    split at h
    · next hstart =>
      obtain ⟨rfl, rfl⟩ := Prod.mk.inj (Option.some.inj h)
      obtain ⟨rest, hrest⟩ := List.isPrefixOf_iff_prefix.mp hstart
      rw [← hrest]
      simp
    · obtain ⟨⟨before', after'⟩, hrest, hsame⟩ := Option.map_eq_some_iff.mp h
      obtain ⟨rfl, rfl⟩ := Prod.mk.inj hsame
      rw [splitOnce_inv hrest]
      simp

section CheckProxyUrl

variable {Regex Url : Type} {crates : Crates Regex Url}

/-- The credentials of a URL and what follows them. -/
theorem userinfo_of_rsplitOnce (rest : List Char) :
    ∃ userinfo, rest = UrlParts.userinfoText userinfo ++
        ((rsplitOnce '@' rest).map Prod.snd).getD rest ∧
      '@' ∉ ((rsplitOnce '@' rest).map Prod.snd).getD rest := by
  cases hsplit : rsplitOnce '@' rest with
  | none =>
    refine ⟨none, rfl, ?_⟩
    have hnone := Option.map_eq_none_iff.mp hsplit
    simpa using notMem_of_splitOnce_none hnone
  | some parts =>
    obtain ⟨userinfo, hostPort⟩ := parts
    obtain ⟨hrest, hnot⟩ := rsplitOnce_inv hsplit
    refine ⟨some userinfo, ?_, hnot⟩
    rw [UrlParts.userinfoText, List.append_assoc]
    exact hrest

/-- The host as it is written, and the port. -/
theorem splitHostPort_inv {hostPort host port : List Char}
    (h : splitHostPort hostPort = some (host, some port)) :
    ∃ written, hostPort = written ++ ':' :: port ∧
      (written = '[' :: (host ++ [']']) ∧ ']' ∉ host ∨
        written = host ∧ hostPort.head? ≠ some '[') := by
  unfold splitHostPort at h
  split at h
  · next after =>
    split at h
    · cases h
    · next inner tail hsplit =>
      obtain ⟨rfl, hnot⟩ := splitOnce_singleton_inv hsplit
      split at h
      · cases h
      · obtain ⟨rfl, hport⟩ := Prod.mk.inj (Option.some.inj h)
        split at hport
        · next digits =>
          obtain rfl := Option.some.inj hport
          exact ⟨_, by simp, .inl ⟨rfl, hnot⟩⟩
        · cases hport
  · next hbracket =>
    have hhead : hostPort.head? ≠ some '[' := by
      intro hhead
      obtain ⟨after, rfl⟩ := List.head?_eq_some_iff.mp hhead
      exact hbracket after rfl
    split at h
    · next host' port' hsplit =>
      obtain ⟨rfl, hport⟩ := Prod.mk.inj (Option.some.inj h)
      obtain rfl := Option.some.inj hport
      exact ⟨_, (rsplitOnce_inv hsplit).1, .inr ⟨rfl, hhead⟩⟩
    · cases h

private theorem parseStr_of_mem {scheme : String} (h : scheme ∈ proxySchemes) :
    ∃ proxyType, ProxyType.parseStr scheme = some proxyType := by
  have hall : ∀ scheme ∈ proxySchemes, (ProxyType.parseStr scheme).isSome := by decide
  exact Option.isSome_iff_exists.mp (hall scheme h)

/-- A URL that is accepted has parts that can be told apart. -/
theorem parts_of_checkProxyUrl {raw : String} (h : checkProxyUrl crates raw = .ok ()) :
    ∃ parts proxyType number, raw.toList = UrlParts.text parts ∧ parts.Sound proxyType number := by
  unfold checkProxyUrl at h
  split at h
  · cases h
  rename_i scheme rest hscheme
  have hraw := splitOnce_inv hscheme
  split at h
  · cases h
  rename_i hknown
  obtain ⟨proxyType, hproxyType⟩ := parseStr_of_mem (not_not.mp hknown)
  dsimp only at h
  obtain ⟨userinfo, hrest, hat⟩ := userinfo_of_rsplitOnce rest
  revert hrest hat h
  generalize ((rsplitOnce '@' rest).map Prod.snd).getD rest = hostPort
  intro h hrest hat
  split at h
  · cases h
  rename_i hpath
  split at h
  · cases h
  rename_i host port hsplit
  split at h
  · cases h
  rename_i hempty
  split at h
  · cases h
  rename_i hhost
  split at h
  · cases h
  rename_i digits hdigits
  obtain ⟨rfl, -⟩ := Option.filter_eq_some_iff.mp hdigits
  obtain ⟨written, rfl, hwritten⟩ := splitHostPort_inv hsplit
  have hslash : '/' ∉ written ++ ':' :: digits := by
    intro hmem
    apply hpath
    rw [List.any_eq_true]
    exact ⟨'/', hmem, by decide⟩
  have hnumber : ∃ number, parseU16 digits = some number ∧ number ≠ 0 := by
    split at h
    · cases h
    · next number hzero hnumber => exact ⟨number, hnumber, fun hsame ↦ hzero (hsame ▸ rfl)⟩
    · cases h
  obtain ⟨number, hnumber, hpos⟩ := hnumber
  refine ⟨{ scheme, userinfo, host := written, port := digits }, proxyType, number, ?_, ?_⟩
  · rw [hraw, hrest]
    rfl
  · constructor
    case scheme => exact hproxyType
    case hostNonempty =>
      rcases hwritten with ⟨rfl, -⟩ | ⟨rfl, -⟩
      · exact List.cons_ne_nil _ _
      · simpa using hempty
    case hostChars =>
      intro c hc hmem
      have hin : c ∈ written ++ ':' :: digits := List.mem_append_left _ hmem
      rcases List.mem_pair.mp hc with rfl | rfl
      · exact hat hin
      · exact hslash hin
    case host =>
      rcases hwritten with ⟨rfl, hnot⟩ | ⟨rfl, hhead⟩
      · exact .inl ⟨host, rfl, hnot⟩
      · exact .inr fun hcolon ↦ hhost ⟨hhead, .inl hcolon⟩
    case port => exact hnumber
    case numberPos => exact hpos

end CheckProxyUrl

/-! ## Rules -/

/-- The item is a rule that is not switched off. -/
def isEnabled : Json → Bool
  | .object obj => match obj.lookup "enabled" with
    | some (.bool false) => false
    | _ => true
  | _ => false

/-- The indices of the rules that are not switched off. -/
def enabledIndices (items : List Json) : List Nat :=
  (items.zipIdx.filter fun item ↦ isEnabled item.1).map Prod.snd

/-- The proxy of a custom rule is the one that is written, and its own URL gives it back. Where a
closing bracket stands before the end of the host, nothing is said. -/
def WrittenProxy (proxy : String) (egress : RuleEgress) : Prop :=
  ∃ parts proxyType number, proxy.toList = UrlParts.text parts ∧ parts.Sound proxyType number ∧
    (BracketLast parts.host →
      ∃ config : ProxyConfig, egress = .custom config ∧ config.mode = .manual ∧
        config.proxyType = proxyType ∧ config.host = String.ofList parts.host ∧
          config.port = number ∧
            (config.username ≠ "" ∨ config.password = "" →
              ∃ url, config.toProxyUrl = some url ∧ ProxyConfig.fromProxyUrl url = config))

/-- Where a rule with an action sends a site. -/
def EgressOf (manual : ProxyConfig) (proxy : String) (egress : RuleEgress) : Action → Prop
  | .direct => egress = .direct
  | .system => egress = .system
  | .manual => egress = .manual (manualEgress manual)
  | .custom => WrittenProxy proxy egress

section Validate

variable {Regex Url : Type} {crates : Crates Regex Url}

/-- A rule is what its object says. -/
structure CompiledFrom (crates : Crates Regex Url) (manual : ProxyConfig)
    (obj : List (String × Json)) (rule : CompiledRule Regex) : Prop where
  id : rule.id = strField obj "id"
  name : rule.name = strField obj "name"
  matcher : ∃ kind, (Json.asStr (obj.lookup "match")).bind MatchKind.parse = some kind ∧
    compileMatcher crates kind (strField obj "pattern") = .ok rule.matcher
  egress : ∃ action, (Json.asStr (obj.lookup "action")).bind Action.parse = some action ∧
    EgressOf manual (strField obj "proxy") rule.egress action

private theorem writtenProxy_of_checkProxyUrl {proxy : String}
    (h : checkProxyUrl crates proxy = .ok ()) :
    WrittenProxy proxy (.custom (ProxyConfig.fromProxyUrl proxy)) := by
  obtain ⟨parts, proxyType, number, htext, hsound⟩ := parts_of_checkProxyUrl h
  refine ⟨parts, proxyType, number, htext, hsound, fun hbracket ↦ ?_⟩
  have hread := hsound.fromProxyUrl hbracket
  rw [← htext, String.ofList_toList] at hread
  refine ⟨_, rfl, by rw [hread], by rw [hread], by rw [hread], by rw [hread], fun hcredentials ↦ ?_⟩
  apply ProxyConfig.fromProxyUrl_toProxyUrl hsound hbracket
  · rw [hread]
  · rw [hread]
  · rw [hread]
  · rw [hread]
  · exact hcredentials

private theorem validateMatch_eq_nil {obj : List (String × Json)}
    (h : validateMatch crates obj = []) :
    ∃ kind matcher, (Json.asStr (obj.lookup "match")).bind MatchKind.parse = some kind ∧
      compileMatcher crates kind (strField obj "pattern") = .ok matcher := by
  unfold validateMatch at h
  dsimp only at h
  split at h
  · cases h
  · next kind hkind =>
    split at h
    · next matcher hmatcher => exact ⟨kind, matcher, hkind, hmatcher⟩
    · cases h

private theorem validateAction_eq_nil {obj : List (String × Json)}
    (h : validateAction crates obj = []) :
    ∃ action, (Json.asStr (obj.lookup "action")).bind Action.parse = some action ∧
      (strField obj "proxy").length ≤ maxProxyUrlChars ∧
        (action = .custom → checkProxyUrl crates (strField obj "proxy") = .ok ()) := by
  unfold validateAction at h
  dsimp only at h
  obtain ⟨haction, hproxy⟩ := List.append_eq_nil_iff.mp h
  cases hparse : (Json.asStr (obj.lookup "action")).bind Action.parse with
  | none =>
    rw [hparse] at haction
    cases haction
  | some action =>
    split at hproxy
    · cases hproxy
    · next hlength =>
      refine ⟨action, rfl, Nat.le_of_not_lt hlength, ?_⟩
      rintro rfl
      rw [if_pos hparse] at hproxy
      split at hproxy
      · cases hproxy
      · split at hproxy
        · next hcheck => exact hcheck
        · cases hproxy

private theorem enabled_rawRule (obj : List (String × Json)) :
    (rawRule obj).enabled = isEnabled (.object obj) := by
  have hbool : ∀ value : Option Json, (Json.asBool value).getD true =
      match value with
      | some (.bool false) => false
      | _ => true := by
    intro value
    rcases value with - | (- | (- | -) | - | - | - | -) <;> rfl
  exact hbool (obj.lookup "enabled")

/-- An enabled rule without issues is kept. -/
theorem compileRule_of_valid {obj : List (String × Json)} (hmatch : validateMatch crates obj = [])
    (haction : validateAction crates obj = []) (henabled : isEnabled (.object obj) = true)
    (manual : ProxyConfig) (index : Nat) :
    ∃ rule, compileRule crates manual index (rawRule obj) = some rule ∧ rule.index = index ∧
      CompiledFrom crates manual obj rule := by
  obtain ⟨kind, matcher, hkind, hmatcher⟩ := validateMatch_eq_nil hmatch
  obtain ⟨action, hparse, hlength, hcustom⟩ := validateAction_eq_nil haction
  have hmatchKind : (rawRule obj).matchKind = kind := by rw [rawRule, hkind, Option.getD_some]
  have hruleAction : (rawRule obj).action = action := by rw [rawRule, hparse, Option.getD_some]
  obtain ⟨egress, hegress, hegressOf⟩ : ∃ egress, egressOf crates manual (rawRule obj) = some egress ∧
      EgressOf manual (strField obj "proxy") egress action := by
    unfold egressOf
    rw [hruleAction]
    cases action with
    | direct => exact ⟨_, rfl, rfl⟩
    | system => exact ⟨_, rfl, rfl⟩
    | manual => exact ⟨_, rfl, rfl⟩
    | custom =>
      have hcheck := hcustom rfl
      have hkeep : ¬ (maxProxyUrlChars < (rawRule obj).proxy.length ∨
          (checkProxyUrl crates (rawRule obj).proxy).isOk = false) := by
        rw [show (rawRule obj).proxy = strField obj "proxy" from rfl, hcheck]
        rintro (hlong | hbad)
        · exact Nat.not_lt_of_le hlength hlong
        · cases hbad
      exact ⟨_, if_neg hkeep, writtenProxy_of_checkProxyUrl hcheck⟩
  refine ⟨{ index, id := (rawRule obj).id, name := (rawRule obj).name, matcher, egress }, ?_, rfl,
    rfl, rfl, ⟨kind, hkind, hmatcher⟩, action, hparse, hegressOf⟩
  unfold compileRule
  rw [if_neg (by rw [enabled_rawRule, henabled]; decide), hmatchKind,
    show (rawRule obj).pattern = strField obj "pattern" from rfl, hmatcher]
  dsimp only
  rw [hegress]

/-- A disabled rule is left out. -/
theorem compileRule_of_disabled {obj : List (String × Json)}
    (h : isEnabled (.object obj) = false) (manual : ProxyConfig) (index : Nat) :
    compileRule crates manual index (rawRule obj) = none := by
  unfold compileRule
  rw [if_pos (by rw [enabled_rawRule, h])]

/-- Every item is an object without issues. -/
theorem validateItems_eq_nil {ids : List String} {index : Nat} {items : List Json}
    (h : validateItems crates ids index items = []) :
    ∀ item ∈ items, ∃ obj, item = .object obj ∧ validateMatch crates obj = [] ∧
      validateAction crates obj = [] := by
  induction items generalizing ids index with
  | nil => exact fun item hitem ↦ absurd hitem List.not_mem_nil
  | cons item items ih =>
    intro other hother
    cases item with
    | object obj =>
      unfold validateItems at h
      obtain ⟨hnow, hrest⟩ := List.append_eq_nil_iff.mp h
      rcases List.mem_cons.mp hother with rfl | hother
      · obtain ⟨hfirst, haction⟩ := List.append_eq_nil_iff.mp (List.map_eq_nil_iff.mp hnow)
        exact ⟨obj, rfl, (List.append_eq_nil_iff.mp hfirst).2, haction⟩
      · exact ih hrest other hother
    | null => cases h
    | bool b => cases h
    | number text => cases h
    | string s => cases h
    | array items => cases h

/-- The enabled rules are kept in their order, each with its own index. -/
theorem compile_items {items : List Json}
    (hitems : ∀ item ∈ items, ∃ obj, item = .object obj ∧ validateMatch crates obj = [] ∧
      validateAction crates obj = []) (manual : ProxyConfig) :
    (((rawRules items).filterMap fun (index, rule) ↦ compileRule crates manual index rule).map
        CompiledRule.index) = enabledIndices items := by
  unfold rawRules enabledIndices
  generalize 0 = start
  induction items generalizing start with
  | nil => rfl
  | cons item items ih =>
    obtain ⟨obj, rfl, hmatch, haction⟩ := hitems item List.mem_cons_self
    have hrest := ih (fun other hother ↦ hitems other (List.mem_cons_of_mem _ hother)) (start + 1)
    rw [List.zipIdx_cons, List.filterMap_cons]
    dsimp only
    rw [List.filterMap_cons]
    dsimp only
    cases henabled : isEnabled (.object obj) with
    | true =>
      obtain ⟨rule, hrule, hindex, -⟩ := compileRule_of_valid hmatch haction henabled manual start
      rw [hrule, List.filter_cons_of_pos (by exact henabled), List.map_cons, List.map_cons, hrest,
        hindex]
    | false =>
      rw [compileRule_of_disabled henabled, List.filter_cons_of_neg (by simp [henabled]), hrest]

/-- Each rule that is kept is what the object at its index says. -/
theorem compiledFrom_of_mem {items : List Json}
    (hitems : ∀ item ∈ items, ∃ obj, item = .object obj ∧ validateMatch crates obj = [] ∧
      validateAction crates obj = []) {manual : ProxyConfig} {rule : CompiledRule Regex}
    (hmem : rule ∈ (rawRules items).filterMap fun (index, rule) ↦
      compileRule crates manual index rule) :
    ∃ obj, items[rule.index]? = some (.object obj) ∧ CompiledFrom crates manual obj rule := by
  obtain ⟨⟨index, raw⟩, hraw, hrule⟩ := List.mem_filterMap.mp hmem
  obtain ⟨⟨item, index'⟩, hitem, hsame⟩ := List.mem_filterMap.mp hraw
  have hget := List.mem_zipIdx_iff_getElem?.mp hitem
  obtain ⟨obj, rfl, hmatch, haction⟩ := hitems item (List.mem_of_getElem? hget)
  obtain ⟨rfl, rfl⟩ := Prod.mk.inj (Option.some.inj hsame)
  dsimp only at hrule hget
  cases henabled : isEnabled (.object obj) with
  | true =>
    obtain ⟨rule', hrule', hindex, hfrom⟩ :=
      compileRule_of_valid hmatch haction henabled manual index'
    rw [hrule] at hrule'
    obtain rfl := Option.some.inj hrule'
    rw [hindex]
    exact ⟨obj, hget, hfrom⟩
  | false =>
    rw [compileRule_of_disabled henabled] at hrule
    cases hrule

private theorem sorted_enabledIndices (items : List Json) :
    (enabledIndices items).Pairwise (· < ·) := by
  have hall : (items.zipIdx.map Prod.snd).Pairwise (· < ·) := by
    rw [List.zipIdx_map_snd]
    exact List.pairwise_lt_range'
  exact hall.sublist (List.filter_sublist.map _)

end Validate

/-! ## The first rule that accepts -/

section FirstMatch

variable {Regex Url : Type} {crates : Crates Regex Url} {set : ProxyRuleSet Regex}

/-- Rules are for the host of a URL: its scheme is one of theirs, and it is not this machine. -/
structure Routed (crates : Crates Regex Url) (url : Url) (host : String) : Prop where
  scheme : crates.urlScheme url ∈ routableSchemes
  hostText : (crates.urlHost url).map Host.text = some host
  notLoopback : isLoopbackBypassed host = false

/-- The rule accepts the URL, and no rule with a lower index does. -/
structure Lowest (crates : Crates Regex Url) (set : ProxyRuleSet Regex) (url : Url) (host : String)
    (rule : CompiledRule Regex) : Prop where
  mem : rule ∈ set.rules
  accepts : rule.matcher.isMatch crates url host = true
  lowest : ∀ other ∈ set.rules, other.matcher.isMatch crates url host = true →
    rule.index ≤ other.index

private theorem lowest_of_find? (hsorted : (set.rules.map CompiledRule.index).Pairwise (· < ·))
    {url : Url}
    {host : String} {rule : CompiledRule Regex}
    (h : (set.rules.find? fun rule ↦ rule.matcher.isMatch crates url host) = some rule) :
    Lowest crates set url host rule := by
  obtain ⟨haccepts, before, after, hrules, hbefore⟩ := List.find?_eq_some_iff_append.mp h
  refine ⟨List.mem_of_find?_eq_some h, haccepts, fun other hother hmatch ↦ ?_⟩
  rw [hrules] at hother hsorted
  rcases List.mem_append.mp hother with hother | hother
  · have hnot := hbefore other hother
    rw [hmatch] at hnot
    cases hnot
  · rcases List.mem_cons.mp hother with rfl | hother
    · exact Nat.le_refl _
    · rw [List.map_append, List.map_cons] at hsorted
      have hafter := (List.pairwise_cons.mp (List.pairwise_append.mp hsorted).2.1).1
      exact Nat.le_of_lt (hafter _ (List.mem_map_of_mem hother))

private theorem find?_eq_some_iff_lowest
    (hsorted : (set.rules.map CompiledRule.index).Pairwise (· < ·))
    {url : Url} {host : String} {rule : CompiledRule Regex} :
    (set.rules.find? fun rule ↦ rule.matcher.isMatch crates url host) = some rule ↔
      Lowest crates set url host rule := by
  constructor
  · exact lowest_of_find? hsorted
  · intro h
    cases hfind : set.rules.find? fun rule ↦ rule.matcher.isMatch crates url host with
    | none => exact absurd h.accepts (List.find?_eq_none.mp hfind rule h.mem)
    | some first =>
      have hfirst := lowest_of_find? hsorted hfind
      have hindex : first.index = rule.index :=
        Nat.le_antisymm (hfirst.lowest rule h.mem h.accepts) (h.lowest first hfirst.mem hfirst.accepts)
      have hnodup : (set.rules.map CompiledRule.index).Nodup := hsorted.imp Nat.ne_of_lt
      rw [List.inj_on_of_nodup_map hnodup hfirst.mem h.mem hindex]

/-- The first rule that accepts a URL is the one with the lowest index. -/
theorem firstMatchUrl_eq_some_iff (hsorted : (set.rules.map CompiledRule.index).Pairwise (· < ·))
    {url : Url} {rule : CompiledRule Regex} :
    set.firstMatchUrl crates url = some rule ↔
      ∃ host, Routed crates url host ∧ Lowest crates set url host rule := by
  unfold ProxyRuleSet.firstMatchUrl
  constructor
  · intro h
    split at h
    · cases h
    · next hroutable =>
      split at h
      · cases h
      · next host hhost =>
        split at h
        · cases h
        · next hloopback =>
          refine ⟨host, ⟨?_, hhost, by simpa using hloopback⟩, lowest_of_find? hsorted h⟩
          by_contra hscheme
          exact hroutable (.inr hscheme)
  · rintro ⟨host, hrouted, hlowest⟩
    have hnonempty : ¬ (set.rules.isEmpty = true ∨ crates.urlScheme url ∉ routableSchemes) := by
      rintro (hempty | hscheme)
      · have hmem := hlowest.mem
        rw [List.isEmpty_iff.mp hempty] at hmem
        cases hmem
      · exact hscheme hrouted.scheme
    rw [if_neg hnonempty, hrouted.hostText]
    dsimp only
    rw [if_neg (by rw [hrouted.notLoopback]; decide)]
    exact (find?_eq_some_iff_lowest hsorted).mpr hlowest

private theorem matched_explainRule (system : SystemProxy) (rule : CompiledRule Regex) :
    (explainRule system rule).matched =
      some { index := rule.index, id := rule.id, name := rule.name } := by
  unfold explainRule
  dsimp only
  split
  · rfl
  · rfl
  · rfl
  · rfl
  · split
    · rfl
    · rfl

private theorem matched_explainMode (system : SystemProxy) (config : ProxyConfig) (host : String) :
    (explainMode system config host).matched = none := by
  unfold explainMode
  split
  · rfl
  · rfl
  · split
    · rfl
    · split
      · rfl
      · rfl
  · split
    · split
      · rfl
      · rfl
    · rfl

/-- An explanation names the rule that decides, if one does. -/
theorem matched_explain (system : SystemProxy) {config : GlobalConfig Regex}
    (hrules : config.rules = set.nonEmpty) (url : String) :
    (explain crates system config url).matched =
      (set.firstMatch crates (String.ofList (trim url.toList))).map fun rule ↦
        { index := rule.index, id := rule.id, name := rule.name } := by
  unfold explain ProxyRuleSet.firstMatch
  rw [hrules]
  cases crates.parseUrl (String.ofList (trim url.toList)) with
  | none => rfl
  | some parsed =>
    dsimp only [Option.bind_some]
    unfold ProxyRuleSet.firstMatchUrl ProxyRuleSet.nonEmpty
    by_cases hscheme : crates.urlScheme parsed ∉ routableSchemes
    · rw [if_pos hscheme, if_pos (Or.inr hscheme)]
      rfl
    · rw [if_neg hscheme]
      cases (crates.urlHost parsed).map Host.text with
      | none => simp [because]
      | some host =>
        dsimp only
        by_cases hloopback : isLoopbackBypassed host = true
        · rw [if_pos hloopback]
          simp [because, hloopback]
        · rw [if_neg hloopback]
          by_cases hempty : set.rules.isEmpty = true
          · rw [if_pos hempty, if_pos (Or.inl hempty)]
            exact matched_explainMode system _ host
          · rw [if_neg hempty, Option.bind_some, if_neg (not_or.mpr ⟨hempty, hscheme⟩)]
            rw [if_neg hloopback]
            cases set.rules.find? fun rule ↦ rule.matcher.isMatch crates parsed host with
            | none => exact matched_explainMode system _ host
            | some rule => exact matched_explainRule system rule

end FirstMatch

/-! ## Agreement -/

section Agree

variable {Regex Url : Type}

/-- The enabled rules of a configuration value are compiled as they are written, and the first that
accepts a site decides; an explanation of a text is one of the text without the white space at its
ends. -/
structure Agrees (crates : Crates Regex Url) (raw : String) (manual : ProxyConfig) : Prop where
  kept : ∃ items, (crates.fromStr raw = .ok (.array items) ∨
      (trim raw.toList).isEmpty = true ∧ items = []) ∧
    (ProxyRuleSet.compile crates raw manual).rules.map CompiledRule.index = enabledIndices items ∧
      ∀ rule ∈ (ProxyRuleSet.compile crates raw manual).rules,
        ∃ obj, items[rule.index]? = some (.object obj) ∧ CompiledFrom crates manual obj rule
  decides : ∀ url rule,
    (ProxyRuleSet.compile crates raw manual).firstMatch crates url = some rule ↔
      ∃ parsed host, crates.parseUrl url = some parsed ∧ Routed crates parsed host ∧
        Lowest crates (ProxyRuleSet.compile crates raw manual) parsed host rule
  explained : ∀ (system : SystemProxy) (config : GlobalConfig Regex) (url : String),
    config.rules = (ProxyRuleSet.compile crates raw manual).nonEmpty →
      (explain crates system config url).matched =
        ((ProxyRuleSet.compile crates raw manual).firstMatch crates
          (String.ofList (trim url.toList))).map fun rule ↦
            { index := rule.index, id := rule.id, name := rule.name }

variable {crates : Crates Regex Url}

/-- The items of a configuration value without issues, and its rules. -/
theorem kept_of_validate (hblank : ∀ text items, (trim text.toList).isEmpty = true →
      crates.fromStr text ≠ .ok (.array items)) {raw : String} (h : validate crates raw = [])
    (manual : ProxyConfig) :
    ∃ items, (crates.fromStr raw = .ok (.array items) ∨
        (trim raw.toList).isEmpty = true ∧ items = []) ∧
      (ProxyRuleSet.compile crates raw manual).rules.map CompiledRule.index = enabledIndices items ∧
        ∀ rule ∈ (ProxyRuleSet.compile crates raw manual).rules,
          ∃ obj, items[rule.index]? = some (.object obj) ∧ CompiledFrom crates manual obj rule := by
  unfold validate at h
  split at h
  · next hempty =>
    have hnone : parseRaw crates raw = [] := by
      unfold parseRaw
      split
      · next items hitems => exact absurd hitems (hblank raw items hempty)
      · rfl
    refine ⟨[], .inr ⟨hempty, rfl⟩, ?_⟩
    unfold ProxyRuleSet.compile
    rw [hnone]
    exact ⟨rfl, fun rule hrule ↦ absurd hrule List.not_mem_nil⟩
  · split at h
    · next items hitems =>
      have hall := validateItems_eq_nil (List.append_eq_nil_iff.mp h).2
      have hraw : parseRaw crates raw = rawRules items := by rw [parseRaw, hitems]
      refine ⟨items, .inl hitems, ?_⟩
      unfold ProxyRuleSet.compile
      rw [hraw]
      exact ⟨compile_items hall manual, fun rule hrule ↦ compiledFrom_of_mem hall hrule⟩
    · cases h
    · cases h

/-- A configuration value without issues is compiled as it is written. No array is read from a text
of white space. -/
theorem agrees_of_validate (hblank : ∀ text items, (trim text.toList).isEmpty = true →
      crates.fromStr text ≠ .ok (.array items)) {raw : String} (h : validate crates raw = [])
    (manual : ProxyConfig) : Agrees crates raw manual := by
  have hkept := kept_of_validate hblank h manual
  refine ⟨hkept, fun url rule ↦ ?_, fun system config url hrules ↦ matched_explain system hrules url⟩
  obtain ⟨items, -, hindices, -⟩ := hkept
  have hsorted := sorted_enabledIndices items
  rw [← hindices] at hsorted
  rw [ProxyRuleSet.firstMatch, Option.bind_eq_some_iff]
  constructor
  · rintro ⟨parsed, hparsed, hmatch⟩
    obtain ⟨host, hrouted, hlowest⟩ := (firstMatchUrl_eq_some_iff hsorted).mp hmatch
    exact ⟨parsed, host, hparsed, hrouted, hlowest⟩
  · rintro ⟨parsed, host, hparsed, hrouted, hlowest⟩
    exact ⟨parsed, hparsed, (firstMatchUrl_eq_some_iff hsorted).mpr ⟨host, hrouted, hlowest⟩⟩

end Agree

/-- A configuration value with one rule. -/
def sampleRaw : String :=
  "[\x7b\"id\":\"a\",\"match\":\"domain\",\"pattern\":\"localhost example.com\"," ++
    "\"action\":\"custom\",\"proxy\":\"socks5://u:p%40ss@[2001:db8::1]:1080\"\x7d]"

/-- Its value, and the URLs of two hosts. -/
def sampleCrates : Crates String String where
  fromStr raw :=
    if raw = sampleRaw then
      .ok (.array [.object [("id", .string "a"), ("match", .string "domain"),
        ("pattern", .string "localhost example.com"), ("action", .string "custom"),
        ("proxy", .string "socks5://u:p%40ss@[2001:db8::1]:1080")]])
    else .error "expected value at line 1 column 1"
  jsonText _ := ""
  buildRegex pattern := .ok pattern
  isMatch _ _ := false
  parseUrl url :=
    if url = "http://localhost/" then some "localhost"
    else if url = "http://example.com/" then some "example.com"
    else none
  urlScheme _ := "http"
  urlHost host := some (.domain host)
  urlText host := s!"http://{host}/"

private theorem validate_sampleRaw : validate sampleCrates sampleRaw = [] := by decide +kernel

/-- A custom rule with credentials and an IPv6 host. -/
theorem agrees_sample : Agrees sampleCrates sampleRaw {} := by
  apply agrees_of_validate
  · intro text items hempty hread
    have hsample : text = sampleRaw := by
      by_contra hne
      simp [sampleCrates, hne] at hread
    subst hsample
    revert hempty
    decide +kernel
  · exact validate_sampleRaw

/-- The one rule accepts this machine, but is not for it; and an explanation is of the text without
white space of any kind, where a URL has none. -/
theorem firstMatch_sample :
    (¬ ∀ (raw url parsed host : String) (rule : CompiledRule String),
      validate sampleCrates raw = [] → sampleCrates.parseUrl url = some parsed →
        (sampleCrates.urlHost parsed).map Host.text = some host →
          Lowest sampleCrates (ProxyRuleSet.compile sampleCrates raw {}) parsed host rule →
            (ProxyRuleSet.compile sampleCrates raw {}).firstMatch sampleCrates url = some rule) ∧
    ¬ ∀ (raw url : String) (system : SystemProxy) (config : GlobalConfig String),
      validate sampleCrates raw = [] →
        config.rules = (ProxyRuleSet.compile sampleCrates raw {}).nonEmpty →
          (explain sampleCrates system config url).matched.map MatchedRule.index =
            ((ProxyRuleSet.compile sampleCrates raw {}).firstMatch sampleCrates url).map
              CompiledRule.index := by
  constructor
  · intro h
    have hlength : (ProxyRuleSet.compile sampleCrates sampleRaw {}).rules.length = 1 := by
      decide +kernel
    obtain ⟨rule, hrules⟩ := List.length_eq_one_iff.mp hlength
    have haccepts : ∀ rule ∈ (ProxyRuleSet.compile sampleCrates sampleRaw {}).rules,
        rule.matcher.isMatch sampleCrates "localhost" "localhost" = true := by decide +kernel
    have hlowest : Lowest sampleCrates (ProxyRuleSet.compile sampleCrates sampleRaw {}) "localhost"
        "localhost" rule := by
      rw [hrules] at haccepts
      refine ⟨by rw [hrules]; exact List.mem_singleton_self rule,
        haccepts rule (List.mem_singleton_self rule), fun other hother _ ↦ ?_⟩
      rw [hrules] at hother
      rw [List.mem_singleton.mp hother]
    have hmatch := h sampleRaw "http://localhost/" "localhost" "localhost" rule
      validate_sampleRaw rfl rfl hlowest
    have hnone : ((ProxyRuleSet.compile sampleCrates sampleRaw {}).firstMatch sampleCrates
        "http://localhost/").isNone = true := by decide +kernel
    rw [hmatch] at hnone
    cases hnone
  · intro h
    have hsame := h sampleRaw "\u3000http://example.com/" { detected := none, pacUrl := none }
      { rules := (ProxyRuleSet.compile sampleCrates sampleRaw {}).nonEmpty } validate_sampleRaw rfl
    revert hsame
    decide +kernel

end Engine.Proxy
