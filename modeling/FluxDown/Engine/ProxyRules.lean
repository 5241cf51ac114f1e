import FluxDown.Engine.ProxyConfig

/-!
# Rules for sites

Library `Engine`. Rules say which sites go through which proxy. The configuration value is read twice:
leniently when it is compiled, where a rule that cannot be used is skipped, and strictly before it is
stored, where each thing that is wrong is an issue. Reading JSON, regular expressions and URLs is left
to others.
-/

namespace Engine.Proxy

open Base Link

/-! ## What others do -/

/-- A JSON value. -/
inductive Json where
  | null
  | bool (b : Bool)
  | number (text : String)
  | string (s : String)
  | array (items : List Json)
  | object (fields : List (String × Json))

namespace Json

def asBool : Option Json → Option Bool
  | some (.bool b) => some b
  | _ => none

def asStr : Option Json → Option String
  | some (.string s) => some s
  | _ => none

end Json

/-- Why a regular expression is not built. -/
inductive RegexError where
  | compiledTooBig
  | other (text : String)

/-- The host of a URL. -/
inductive Host where
  | domain (name : String)
  | ipv4 (bits : BitVec 32)
  | ipv6 (bits : BitVec 128)

/-- Functions of other crates. Regular expressions are built without regard to case and within
`REGEX_SIZE_LIMIT`. -/
structure Crates (Regex Url : Type) where
  fromStr : String → Except String Json
  jsonText : Json → String
  buildRegex : String → Except RegexError Regex
  isMatch : Regex → String → Bool
  parseUrl : String → Option Url
  urlScheme : Url → String
  urlHost : Url → Option Host
  urlText : Url → String

/-! ## Lenient reading -/

/-- The most rules (`src/native/engine/src/proxy_rules.rs:31`). -/
def maxProxyRules : Nat := 200

/-- The most characters of a pattern (`proxy_rules.rs:33`). -/
def maxPatternChars : Nat := 2048

/-- The most characters of a name (`proxy_rules.rs:35`). -/
def maxNameChars : Nat := 64

/-- The most characters of a proxy (`proxy_rules.rs:37`). -/
def maxProxyUrlChars : Nat := 2048

/-- Schemes that rules are for (`proxy_rules.rs:41`). -/
def routableSchemes : List String := ["http", "https", "ftp", "ftps"]

/-- Schemes of proxies (`proxy_rules.rs:43`). -/
def proxySchemes : List String := ["http", "https", "socks4", "socks4a", "socks5", "socks5h"]

/-- The most characters of an error of a regular expression (`proxy_rules.rs:45`). -/
def regexErrorChars : Nat := 200

/-- What a pattern is (`proxy_rules.rs:52–55`). -/
inductive MatchKind where
  | domain
  | regex
deriving DecidableEq

/-- Where a rule sends a site (`proxy_rules.rs:58–63`). -/
inductive Action where
  | direct
  | system
  | manual
  | custom
deriving DecidableEq

/-- Read a kind (`proxy_rules.rs:66–72`). -/
def MatchKind.parse (value : String) : Option MatchKind :=
  if value = "domain" then some .domain
  else if value = "regex" then some .regex
  else none

/-- Read an action (`proxy_rules.rs:76–84`). -/
def Action.parse (value : String) : Option Action :=
  if value = "direct" then some .direct
  else if value = "system" then some .system
  else if value = "manual" then some .manual
  else if value = "custom" then some .custom
  else none

/-- A rule as it is written (`proxy_rules.rs:88–96`). -/
structure RawRule where
  id : String
  enabled : Bool
  name : String
  matchKind : MatchKind
  pattern : String
  action : Action
  proxy : String

/-- A text, empty if there is none (`proxy_rules.rs:98–103`). -/
def strField (obj : List (String × Json)) (key : String) : String :=
  (Json.asStr (obj.lookup key)).getD ""

/-- The rule of an object, with defaults (`proxy_rules.rs:116–133`). -/
def rawRule (obj : List (String × Json)) : RawRule where
  id := strField obj "id"
  enabled := (Json.asBool (obj.lookup "enabled")).getD true
  name := strField obj "name"
  matchKind := ((Json.asStr (obj.lookup "match")).bind MatchKind.parse).getD .domain
  pattern := strField obj "pattern"
  action := ((Json.asStr (obj.lookup "action")).bind Action.parse).getD .direct
  proxy := strField obj "proxy"

/-- The rules of the items; what is not an object is skipped, but its index is not used again. -/
def rawRules (items : List Json) : List (Nat × RawRule) :=
  items.zipIdx.filterMap fun (item, index) ↦
    match item with
    | .object obj => some (index, rawRule obj)
    | _ => none

/-! ## Matchers -/

/-- Entries of a pattern of domains (`proxy_rules.rs:143–148`). -/
inductive DomainEntry where
  | suffix (domain : String)
  | exact (ip : String)
deriving DecidableEq

/-- What accepts a site (`proxy_rules.rs:150–153`). -/
inductive RuleMatcher (Regex : Type) where
  | domains (entries : List DomainEntry)
  | regex (regex : Regex)

/-- An issue, without its index (`proxy_rules.rs:156`). -/
structure MatcherError where
  field : String
  code : String
  detail : String

/-- Where a rule sends a site; the proxy of the system is not looked up yet
(`proxy_rules.rs:313–319`). -/
inductive RuleEgress where
  | direct
  | system
  | manual (config : Option ProxyConfig)
  | custom (config : ProxyConfig)
deriving DecidableEq

/-- An enabled rule that was compiled (`proxy_rules.rs:351–357`). -/
structure CompiledRule (Regex : Type) where
  index : Nat
  id : String
  name : String
  matcher : RuleMatcher Regex
  egress : RuleEgress

/-- Rules by priority (`proxy_rules.rs:393–395`). -/
structure ProxyRuleSet (Regex : Type) where
  rules : List (CompiledRule Regex)

/-- The global configuration (`src/native/engine/src/proxy_config.rs:165–182`). -/
structure GlobalConfig (Regex : Type) extends ProxyConfig where
  rules : Option (ProxyRuleSet Regex)

/-- The text of a host (`proxy_rules.rs:233–239`). -/
def Host.text : Host → String
  | .domain name => name
  | .ipv4 bits => ipv4Text bits
  | .ipv6 bits => ipv6Text bits

/-- An error on one line (`proxy_rules.rs:181–188`). -/
def regexErrorText (error : String) : String :=
  let line := error.toList.map fun c ↦ if c = '\r' ∨ c = '\n' then ' ' else c
  String.ofList (line.take regexErrorChars)

/-- A rule's matcher accepts a URL (`proxy_rules.rs:241–258`). -/
def RuleMatcher.isMatch {Regex Url : Type} (crates : Crates Regex Url) (url : Url)
    (host : String) : RuleMatcher Regex → Bool
  | .domains entries => entries.any fun entry ↦
    match entry with
    | .exact ip => decide (host = ip)
    | .suffix domain => decide (host = domain) ||
      domain.toList.isSuffixOf host.toList &&
        (host.toList.take (host.length - domain.length)).getLast? == some '.'
  | .regex pattern => crates.isMatch pattern (crates.urlText url)

section Compile

variable {Regex Url : Type} (crates : Crates Regex Url)

/-- The rules of a configuration value (`proxy_rules.rs:106–137`). -/
def parseRaw (raw : String) : List (Nat × RawRule) :=
  match crates.fromStr raw with
  | .ok (.array items) => rawRules items
  | _ => []

/-- An entry of a pattern (`proxy_rules.rs:205–230`). -/
def parseDomainEntry (raw : List Char) : Option DomainEntry :=
  let entry := if "*.".toList.isPrefixOf raw then raw.drop 2 else raw
  let entry := (entry.dropWhile (· = '.')).rdropWhile (· = '.')
  if entry.isEmpty then none
  else if entry.head? = some '[' ∧ 2 ≤ entry.length ∧ entry.getLast? = some ']' then
    (parseIpv6 (entry.drop 1).dropLast).map fun bits ↦ .exact (ipv6Text bits)
  else match parseIp entry with
    | some (.v4 bits) => some (.exact (ipv4Text bits))
    | some (.v6 bits) => some (.exact (ipv6Text bits))
    | none =>
      if entry.any fun c ↦ c ∈ [':', '/', '?', '#', '@'] then none
      else match (crates.parseUrl s!"http://{String.ofList entry}/").bind crates.urlHost with
        | some (.domain name) => some (.suffix name)
        | some host => some (.exact host.text)
        | none => none

/-- The entries of a pattern, or the first that is none (`proxy_rules.rs:191–203`). -/
def parseDomainEntries (pattern : String) : Except String (List DomainEntry) :=
  let parts := (pattern.toList.splitOnP fun c ↦ c = ',' || c = ';' || isWhitespace c).filter
    fun part ↦ !part.isEmpty
  if parts.isEmpty then .error (String.ofList (trim pattern.toList))
  else parts.mapM fun part ↦
    match parseDomainEntry crates part with
    | some entry => .ok entry
    | none => .error (String.ofList part)

/-- Compile a pattern (`proxy_rules.rs:158–179`). -/
def compileMatcher (kind : MatchKind) (pattern : String) :
    Except MatcherError (RuleMatcher Regex) :=
  if (trim pattern.toList).isEmpty then .error ⟨"pattern", "emptyPattern", ""⟩
  else if maxPatternChars < pattern.length then
    .error ⟨"pattern", "tooLong", toString maxPatternChars⟩
  else match kind with
    | .domain => match parseDomainEntries crates pattern with
      | .ok entries => .ok (.domains entries)
      | .error bad => .error ⟨"pattern", "invalidDomain", bad⟩
    | .regex => match crates.buildRegex pattern with
      | .ok regex => .ok (.regex regex)
      | .error .compiledTooBig => .error ⟨"pattern", "regexTooLarge", ""⟩
      | .error (.other text) => .error ⟨"pattern", "invalidRegex", regexErrorText text⟩

/-! ## Custom proxies -/

/-- The host and the port of a proxy, none for a bracket that is not one of an address
(`proxy_rules.rs:275–287`). -/
def splitHostPort (hostPort : List Char) : Option (List Char × Option (List Char)) :=
  match hostPort with
  | '[' :: after => match splitOnce [']'] after with
    | none => none
    | some (inner, tail) =>
      if (parseIpv6 inner).isNone then none
      else some (inner, match tail with
        | ':' :: port => some port
        | _ => none)
  | _ => match rsplitOnce ':' hostPort with
    | some (host, port) => some (host, some port)
    | none => some (hostPort, none)

/-- What is wrong with the URL of a proxy (`proxy_rules.rs:264–305`). -/
def checkProxyUrl (raw : String) : Except String Unit :=
  match splitOnce "://".toList raw.toList with
  | none => .error "missing scheme"
  | some (scheme, rest) =>
    if String.ofList scheme ∉ proxySchemes then
      .error s!"unsupported scheme {String.ofList scheme}"
    else
      let hostPort := ((rsplitOnce '@' rest).map Prod.snd).getD rest
      if hostPort.any fun c ↦ c ∈ ['/', '?', '#'] then .error "unexpected path"
      else match splitHostPort hostPort with
        | none => .error "invalid host"
        | some (host, port) =>
          if host.isEmpty then .error "missing host"
          else if hostPort.head? ≠ some '[' ∧
              (':' ∈ host ∨ (crates.parseUrl s!"http://{String.ofList host}/").isNone) then
            .error "invalid host"
          else match port.filter fun port ↦ !port.isEmpty with
            | none => .error "missing port"
            | some port => match parseU16 port with
              | some 0 => .error "missing port"
              | some _ => .ok ()
              | none => .error "invalid port"

/-! ## Compiling -/

/-- The proxy of the manual fields, if they are complete (`proxy_rules.rs:408–413`). -/
def manualEgress (manual : ProxyConfig) : Option ProxyConfig :=
  if manual.host ≠ "" ∧ manual.port ≠ 0 then
    some { manual with mode := .manual, noProxyList := "" }
  else none

/-- Where a rule sends a site, unless its proxy cannot be used (`proxy_rules.rs:426–439`). -/
def egressOf (manual : ProxyConfig) (rule : RawRule) : Option RuleEgress :=
  match rule.action with
  | .direct => some .direct
  | .system => some .system
  | .manual => some (.manual (manualEgress manual))
  | .custom =>
    if maxProxyUrlChars < rule.proxy.length ∨ (checkProxyUrl crates rule.proxy).isOk = false then
      none
    else some (.custom (ProxyConfig.fromProxyUrl rule.proxy))

/-- A rule, unless it is disabled or cannot be used (`proxy_rules.rs:415–446`). -/
def compileRule (manual : ProxyConfig) (index : Nat) (rule : RawRule) :
    Option (CompiledRule Regex) :=
  if rule.enabled = false then none
  else match compileMatcher crates rule.matchKind rule.pattern with
    | .error _ => none
    | .ok matcher => match egressOf crates manual rule with
      | none => none
      | some egress => some { index, id := rule.id, name := rule.name, matcher, egress }

/-- The rules that can be used (`proxy_rules.rs:407–449`). -/
def ProxyRuleSet.compile (raw : String) (manual : ProxyConfig) : ProxyRuleSet Regex where
  rules := (parseRaw crates raw).filterMap fun (index, rule) ↦
    compileRule crates manual index rule

/-- A set without rules counts as none (`proxy_rules.rs:517`). -/
def ProxyRuleSet.nonEmpty {Regex : Type} (set : ProxyRuleSet Regex) : Option (ProxyRuleSet Regex) :=
  if set.rules.isEmpty then none else some set

/-- The first rule that accepts a URL; other schemes and this machine are not for rules
(`proxy_rules.rs:467–480`). -/
def ProxyRuleSet.firstMatchUrl (set : ProxyRuleSet Regex) (url : Url) :
    Option (CompiledRule Regex) :=
  if set.rules.isEmpty ∨ crates.urlScheme url ∉ routableSchemes then none
  else match (crates.urlHost url).map Host.text with
    | none => none
    | some host =>
      if isLoopbackBypassed host then none
      else set.rules.find? fun rule ↦ rule.matcher.isMatch crates url host

/-- The first rule that accepts a text (`proxy_rules.rs:461–464`). -/
def ProxyRuleSet.firstMatch (set : ProxyRuleSet Regex) (url : String) :
    Option (CompiledRule Regex) :=
  (crates.parseUrl url).bind (set.firstMatchUrl crates)

/-! ## Strict reading -/

/-- Something that is wrong (`proxy_rules.rs:526–531`). -/
structure RuleIssue where
  index : Nat
  field : String
  code : String
  detail : String
deriving DecidableEq

/-- The text of an issue (`proxy_rules.rs:544–555`). -/
def RuleIssue.message (issue : RuleIssue) : String :=
  let head := if issue.field = "" then s!"proxy_rules: {issue.code}"
    else s!"proxy_rules[{issue.index}].{issue.field}: {issue.code}"
  if issue.detail = "" then head else s!"{head}: {issue.detail}"

/-- The text of a value of the wrong type (`proxy_rules.rs:558–564`). -/
def rawText : Option Json → String
  | none => ""
  | some (.string s) => s
  | some other => crates.jsonText other

/-- Issues of an identity, which no rule before may have (`proxy_rules.rs:599–606`). -/
def validateId (ids : List String) (obj : List (String × Json)) : List (String × String × String) :=
  match (Json.asStr (obj.lookup "id")).filter (· ≠ "") with
  | some id => if id ∈ ids then [("id", "duplicateId", id)] else []
  | none => [("id", "missingId", "")]

/-- Issues of a name (`proxy_rules.rs:607–617`). -/
def validateName (obj : List (String × Json)) : List (String × String × String) :=
  match Json.asStr (obj.lookup "name") with
  | some name => if maxNameChars < name.length then [("name", "tooLong", toString maxNameChars)] else []
  | none => []

/-- Issues of a kind and its pattern (`proxy_rules.rs:618–646`). -/
def validateMatch (obj : List (String × Json)) : List (String × String × String) :=
  let pattern := strField obj "pattern"
  match (Json.asStr (obj.lookup "match")).bind MatchKind.parse with
  | none => ("match", "invalidMatch", rawText crates (obj.lookup "match")) ::
    if (trim pattern.toList).isEmpty then [("pattern", "emptyPattern", "")] else []
  | some kind => match compileMatcher crates kind pattern with
    | .ok _ => []
    | .error ⟨field, code, detail⟩ => [(field, code, detail)]

/-- Issues of an action and its proxy (`proxy_rules.rs:647–675`). -/
def validateAction (obj : List (String × Json)) : List (String × String × String) :=
  let action := (Json.asStr (obj.lookup "action")).bind Action.parse
  let proxy := strField obj "proxy"
  (if action.isNone then [("action", "invalidAction", rawText crates (obj.lookup "action"))]
    else []) ++
  if maxProxyUrlChars < proxy.length then [("proxy", "tooLong", toString maxProxyUrlChars)]
  else if action = some .custom then
    if proxy = "" then [("proxy", "invalidProxy", "missing")]
    else match checkProxyUrl crates proxy with
      | .ok _ => []
      | .error reason => [("proxy", "invalidProxy", reason)]
  else []

/-- Issues of one item after another, with the identities so far (`proxy_rules.rs:593–677`). -/
def validateItems (ids : List String) : Nat → List Json → List RuleIssue
  | _, [] => []
  | index, .object obj :: items =>
    (validateId ids obj ++ validateName obj ++ validateMatch crates obj ++
      validateAction crates obj).map (fun (field, code, detail) ↦ ⟨index, field, code, detail⟩) ++
    validateItems
      (((Json.asStr (obj.lookup "id")).filter (· ≠ "")).toList ++ ids) (index + 1) items
  | index, _ :: items => ⟨index, "", "notObject", ""⟩ :: validateItems ids (index + 1) items

/-- Everything that is wrong with a configuration value (`proxy_rules.rs:567–678`). -/
def validate (raw : String) : List RuleIssue :=
  if (trim raw.toList).isEmpty then []
  else match crates.fromStr raw with
    | .ok (.array items) =>
      (if maxProxyRules < items.length then
          [⟨0, "", "tooManyRules", toString maxProxyRules⟩]
        else []) ++ validateItems crates [] 0 items
    | .ok _ => [⟨0, "", "invalidJson", "expected a JSON array"⟩]
    | .error e => [⟨0, "", "invalidJson", e⟩]

end Compile

/-! ## Explaining -/

/-- The rule that accepted (`proxy_rules.rs:686–690`). -/
structure MatchedRule where
  index : Nat
  id : String
  name : String
deriving DecidableEq

/-- Why a site goes where it goes (`proxy_rules.rs:694–706`). -/
inductive RouteReason where
  | direct
  | proxy
  | systemUndetected
  | manualIncomplete
  | loopback
  | unsupported
  | modeNone
  | bypass
  | pac
  | auto
  | invalidUrl
deriving DecidableEq

/-- An explanation (`proxy_rules.rs:728–732`). -/
structure RouteExplanation where
  matched : Option MatchedRule
  reason : RouteReason
  endpoint : String
deriving DecidableEq

/-- The endpoint without credentials (`proxy_rules.rs:734–741`). -/
def endpointOf (proxy : ProxyConfig) : String :=
  let host := if ':' ∈ proxy.host.toList ∧ proxy.host.toList.head? ≠ some '[' then
      s!"[{proxy.host}]"
    else proxy.host
  s!"{proxy.proxyType.asStr}://{host}:{proxy.port}"

/-- Through a proxy (`proxy_rules.rs:743–749`). -/
def via (proxy : ProxyConfig) (matched : Option MatchedRule) : RouteExplanation :=
  { matched, reason := .proxy, endpoint := endpointOf proxy }

/-- Not through a proxy (`proxy_rules.rs:751–757`). -/
def because (reason : RouteReason) (matched : Option MatchedRule) : RouteExplanation :=
  { matched, reason, endpoint := "" }

/-- What the system says; a detection that fails finds none. -/
structure SystemProxy where
  detected : Option ProxyConfig
  pacUrl : Option String

/-- The proxy of the system, for a rule (`proxy_rules.rs:324–342`). -/
def SystemProxy.resolve (system : SystemProxy) : ProxyConfig :=
  match system.detected with
  | some proxy => { proxy with noProxyList := "" }
  | none => {}

/-- Where a rule sends a site, and why (`proxy_rules.rs:778–795`). -/
def explainRule (system : SystemProxy) {Regex : Type} (rule : CompiledRule Regex) :
    RouteExplanation :=
  let matched := some { index := rule.index, id := rule.id, name := rule.name }
  match rule.egress with
  | .direct => because .direct matched
  | .manual none => because .manualIncomplete matched
  | .manual (some proxy) => via proxy matched
  | .custom proxy => via proxy matched
  | .system =>
    if system.resolve.mode = .none then because .systemUndetected matched
    else via system.resolve matched

/-- Where a site goes that no rule accepts (`proxy_rules.rs:797–824`). -/
def explainMode (system : SystemProxy) (config : ProxyConfig) (host : String) : RouteExplanation :=
  match config.mode with
  | .none => because .modeNone none
  | .auto => because .auto none
  | .manual =>
    if config.host = "" ∨ config.port = 0 then because .manualIncomplete none
    else if hostMatchesNoProxy host (proxyBypassList config.noProxyList) then because .bypass none
    else via config none
  | .system => match system.detected with
    | some proxy =>
      if hostMatchesNoProxy host (proxyBypassList proxy.noProxyList) then because .bypass none
      else via proxy none
    | none => because (if system.pacUrl.isSome then .pac else .systemUndetected) none

/-- Where a site goes, and why (`proxy_rules.rs:760–826`). -/
def explain {Regex Url : Type} (crates : Crates Regex Url) (system : SystemProxy)
    (config : GlobalConfig Regex) (url : String) : RouteExplanation :=
  match crates.parseUrl (String.ofList (trim url.toList)) with
  | none => because .invalidUrl none
  | some parsed =>
    if crates.urlScheme parsed ∉ routableSchemes then because .unsupported none
    else match (crates.urlHost parsed).map Host.text with
      | none => because .invalidUrl none
      | some host =>
        if isLoopbackBypassed host then because .loopback none
        else match config.rules.bind fun rules ↦ rules.firstMatchUrl crates parsed with
          | some rule => explainRule system rule
          | none => explainMode system config.toProxyConfig host

end Engine.Proxy
