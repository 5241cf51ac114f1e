import FluxDown.Base.FoldedMap
import FluxDown.Base.Utf8
import FluxDown.Link.Text

/-!
# Rewriting a request

Library `Engine`. The patch a plugin sends for a request, before a run and when a server refuses.
Every rule works on a copy, which is stored when all rules passed. The headers of a patch are maps
whose order of iteration is not fixed; the model keeps the order in which a map is iterated.
-/

namespace Engine.Intercept

open Base Link

/-! ## What the request is made of -/

/-- `src/native/engine/src/intercept/mod.rs:86–91`. -/
inductive ProtocolKind where
  | http
  | ftp
  | hls
  | dash
deriving DecidableEq, Repr

/-- Letters of a header name in lower case, in ASCII. -/
def lowered (name : String) : List Char := name.toList.map Char.toLower

/-- `str::eq_ignore_ascii_case` is equality of the lowered names. -/
def isNamed (name : String) (other : String) : Bool := lowered name = lowered other

/-- Header names the engine keeps to itself. `src/native/engine/src/downloader.rs:572–581`. -/
def blockedRequestHeaders : List String :=
  ["accept-encoding", "content-encoding", "transfer-encoding", "host", "content-length",
    "connection", "range", "if-range"]

/-- Headers by name. -/
abbrev Headers := SortedMap String String

/-- A header map as it iterates: each name once, in some order. -/
structure HeaderMap where
  entries : List (String × String)
  nodup : (entries.map Prod.fst).Nodup

/-- Headers for the requests to one site. `downloader.rs:586–589`. -/
structure OriginHeaders (M : Type) where
  origin : String
  headers : M

/-- Identity fields a plugin set. `downloader.rs:611–614`. -/
structure RequestPins where
  userAgent : Bool
  referrer : Bool
deriving DecidableEq, Repr

/-- `downloader.rs:632–642`. -/
inductive RequestBodyDecoded where
  | form (pairs : List (String × String))
  | urlencoded (raw : String)
  | raw (bytes : List UInt8) (contentType : Option String)

/-- The fields are listed in the order the map iterates. `downloader.rs:679–693`. -/
inductive CapturedRequestBody where
  | formData (fields : List (String × List String))
  | urlencoded (raw : String)
  | raw (bytesB64 : String) (contentType : Option String)

/-- The request without its proxy router. `downloader.rs:654–671`. -/
structure RequestSpec where
  method : String
  cookies : String
  referrer : String
  extraHeaders : Headers
  body : Option RequestBodyDecoded
  pins : RequestPins
  originHeaders : List (OriginHeaders Headers)
  maxRangeBytes : Option Int

/-- A patch. `src/native/engine/src/intercept/patch.rs:30–55`. -/
structure RequestPatch where
  url : Option String := none
  method : Option String := none
  body : Option CapturedRequestBody := none
  clearBody : Bool := false
  cookies : Option String := none
  referrer : Option String := none
  userAgent : Option String := none
  setHeaders : Option HeaderMap := none
  removeHeaders : Option (List String) := none
  originHeaders : Option (List (OriginHeaders HeaderMap)) := none
  segments : Option Int := none
  maxConnections : Option Int := none
  maxRangeBytes : Option Int := none
  fileName : Option String := none
  ephemeral : Option Bool := none
  totalBytes : Option Int := none
  rangeSupported : Option Bool := none
  replaceHeaders : Option HeaderMap := none

/-- What a patch is applied to. `patch.rs:59–73`. -/
structure RequestTarget where
  url : String
  spec : RequestSpec
  fileName : Option String
  segmentCount : Option Int
  connectionCap : Option Int
  hintFileSize : Option Int
  rangeVerified : Option Bool
  isResume : Bool
  kind : ProtocolKind
  hasAudioTrack : Bool

/-- What a patch did. `patch.rs:77–82`. -/
structure PatchOutcome where
  changed : List String := []
  ignoredFileName : Bool := false
  ephemeral : Bool := false

/-- Label a change once. `patch.rs:84–90`. -/
def PatchOutcome.mark (outcome : PatchOutcome) (label : String) : PatchOutcome :=
  if label ∈ outcome.changed then outcome
  else { outcome with changed := outcome.changed ++ [label] }

/-- A patch ends with a text, or with a slice that is not at the border of a character. -/
inductive Failure where
  | message (text : String)
  | panicked
deriving DecidableEq, Repr

/-- A parsed address. -/
structure Url where
  scheme : String
  host : Option String
  port : Option Nat

/-- The code outside the repository: addresses, header names and values, methods, base64. -/
structure Foreign where
  parseUrl : String → Option Url
  parseHeaderName : String → Option String
  isHeaderValue : String → Bool
  parseMethod : String → Option String
  decodeBase64 : String → Except String (List UInt8)

variable (F : Foreign)

/-- Fail with a text unless a condition holds. -/
def demand (p : Prop) [Decidable p] (text : String) : Except Failure Unit :=
  if p then .ok () else .error (.message text)

/-- The value, or fail with a text. -/
def expect {α : Type} (value : Option α) (text : String) : Except Failure α :=
  value.elim (.error (.message text)) .ok

/-! ## Addresses -/

/-- The host of an address, when it has one. -/
def hostOf (url : String) : Option String := (F.parseUrl url).bind Url.host

/-- `src/native/engine/src/download_manager.rs:673–677`. -/
def isFtpUrl (url : String) : Bool := (url.toList.take 6).map Char.toLower = "ftp://".toList

/-- The address before its query and fragment, in lower case. -/
def loweredPath (url : String) : List Char :=
  ((url.toList.takeWhile (· ≠ '?')).takeWhile (· ≠ '#')).map Char.toLower

/-- `src/native/engine/src/hls_downloader.rs:404–409`. -/
def isHlsUrl (url : String) : Bool :=
  ".m3u8".toList.isSuffixOf (loweredPath url) || ".m3u".toList.isSuffixOf (loweredPath url)

/-- `src/native/engine/src/dash_downloader.rs:54–59`. -/
def isDashUrl (url : String) : Bool := ".mpd".toList.isSuffixOf (loweredPath url)

/-- `src/native/engine/src/intercept/mod.rs:105–115`. -/
def protocolKind (url : String) (hasAudioTrack : Bool) : ProtocolKind :=
  if isFtpUrl url then .ftp
  else if isHlsUrl url then .hls
  else if isDashUrl url || hasAudioTrack then .dash
  else .http

/-- `src/native/engine/src/auth.rs:122–134`. -/
def siteKey (url : String) : Option String := do
  let parsed ← F.parseUrl url
  if parsed.scheme ∉ ["http", "https"] then none
  else do
    let host ← parsed.host
    let hostPort := match parsed.port with
      | some port => s!"{host}:{port}"
      | none => host
    some s!"{parsed.scheme}://{hostPort}"

/-- `auth.rs:140–146`. -/
def normalizeSite (input : String) : Option String :=
  let input := String.ofList (trim input.toList)
  if input = "" then none
  else (siteKey F input).or (siteKey F s!"https://{input}")

/-- The first `n` bytes; a slice inside a character panics. -/
def sliceTo (n : Nat) (text : List Char) : Except Failure (List Char) :=
  if utf8Len (fitting n text) = n then .ok (fitting n text) else .error .panicked

/-- The text is longer than the scheme and starts with it. -/
def startsWithScheme (scheme text : List Char) : Except Failure Bool :=
  if utf8Len text ≤ utf8Len scheme then .ok false
  else (sliceTo (utf8Len scheme) text).map fun slice ↦
    slice.map Char.toLower = scheme.map Char.toLower

/-- `downloader.rs:858–863`. -/
def isValidReferrer (referrer : String) : Except Failure Bool := do
  let r := trim referrer.toList
  if ← startsWithScheme "http://".toList r then .ok true
  else startsWithScheme "https://".toList r

/-! ## Headers -/

/-- `patch.rs:92–94`. -/
def removeHeaderCi (headers : Headers) (name : String) : Headers := headers.removeLike lowered name

/-- `patch.rs:96–104`. -/
def validateHeader (name value : String) : Except Failure Unit := do
  let parsed ← expect (F.parseHeaderName name) s!"请求头 '{name}' 非法"
  demand (F.isHeaderValue value) s!"请求头 '{name}' 非法"
  demand (parsed ∉ blockedRequestHeaders) s!"请求头 '{name}' 由引擎管理，不可设置"

/-- Check every entry of a header map. -/
def validateHeaders (headers : HeaderMap) : Except Failure Unit :=
  headers.entries.forM fun (name, value) ↦ validateHeader F name value

/-- File names have no separators, no `..` and no control characters. `patch.rs:107–113`. -/
def validFileName (name : String) : Bool :=
  trim name.toList ≠ [] && !name.toList.contains '/' && !name.toList.contains '\\' &&
    !decide ("..".toList <:+: name.toList) && !name.toList.any isControl

/-- `downloader.rs:699–722`. -/
def decodeCapturedBody : CapturedRequestBody → Except Failure RequestBodyDecoded
  | .formData fields => .ok (.form (fields.flatMap fun (key, values) ↦ values.map (key, ·)))
  | .urlencoded raw => .ok (.urlencoded raw)
  | .raw bytesB64 contentType => match F.decodeBase64 bytesB64 with
    | .ok bytes => .ok (.raw bytes contentType)
    | .error text => .error (.message s!"请求体 base64 解码失败: {text}")

/-! ## The rules -/

def maxUrlLen : Nat := 8 * 1024
def maxOriginRules : Nat := 32
def maxConnections : Int := 512
def maxSegments : Int := 512
def minRangeBytes : Int := 64 * 1024
def ftpHeaderReject : String := "FTP 任务不支持请求头类改写"

/-- The copies the rules work on. -/
structure Draft where
  url : String
  spec : RequestSpec
  fileName : Option String
  segments : Option Int
  cap : Option Int
  hint : Option Int
  verified : Option Bool
  out : PatchOutcome

/-- The copies at the start. `patch.rs:120–127, 355–356`. -/
def Draft.ofTarget (target : RequestTarget) : Draft where
  url := target.url
  spec := target.spec
  fileName := target.fileName
  segments := target.segmentCount
  cap := target.connectionCap
  hint := target.hintFileSize
  verified := target.rangeVerified
  out := {}

/-- A rule of the patch. -/
abbrev Rule := Draft → Except Failure Draft

/-- A rule about a field does nothing without the field. -/
def onField {α : Type} (field : Option α) (rule : α → Rule) : Rule := fun d ↦
  match field with
  | none => .ok d
  | some value => rule value d

namespace Draft

/-- Label a change. -/
def mark (d : Draft) (label : String) : Draft := { d with out := d.out.mark label }

/-- Change the headers. -/
def withHeaders (d : Draft) (headers : Headers) : Draft :=
  { d with spec := { d.spec with extraHeaders := headers } }

/-- The user agent is the plugin's. -/
def pinUserAgent (d : Draft) : Draft :=
  { d with spec := { d.spec with pins := { d.spec.pins with userAgent := true } } }

/-- The referrer is the plugin's. -/
def pinReferrer (d : Draft) : Draft :=
  { d with spec := { d.spec with pins := { d.spec.pins with referrer := true } } }

end Draft

section Rules

variable (target : RequestTarget) (patch : RequestPatch)

/-- Rule 1. `patch.rs:129–139`. -/
def applyReplaceHeaders : Rule := onField patch.replaceHeaders fun headers d ↦
  let names := headers.entries.map Prod.fst
  let d := d.withHeaders (SortedMap.empty.insertAll headers.entries)
  let d := if names.any (isNamed "user-agent") then d.pinUserAgent else d
  let d := if names.any (isNamed "referer") then d.pinReferrer else d
  .ok (d.mark "请求头")

/-- Rule 2. `patch.rs:141–158`. -/
def applyUrl : Rule := onField patch.url fun next d ↦ do
  demand (next.utf8ByteSize ≤ maxUrlLen) "url 超过 8 KiB"
  let parsed ← expect (F.parseUrl next) "url 非法"
  demand (parsed.host = hostOf F d.url) "url 只能在同一主机内改写（跨站改写请使用 resolver）"
  demand (protocolKind next target.hasAudioTrack = target.kind) "url 不能改变下载协议类别"
  .ok (Draft.mark { d with url := next } "链接")

/-- Rule 3. `patch.rs:160–173`. -/
def applyMethod : Rule := onField patch.method fun method d ↦ do
  demand (target.kind = .http) "仅 HTTP 任务可改写 method"
  let upper := String.ofList ((trim method.toList).map Char.toUpper)
  let parsed ← expect (F.parseMethod upper) "method 非法"
  demand (parsed ≠ "OPTIONS") "method 不能为 OPTIONS"
  .ok (Draft.mark { d with spec := { d.spec with method := parsed } } "请求方法")

/-- The body a patch asks for. `patch.rs:180–186`. -/
def newBody : Except Failure (Option RequestBodyDecoded) :=
  if patch.clearBody then .ok none
  else match patch.body with
    | some body => (decodeCapturedBody F body).map some
    | none => .ok none

/-- Rule 4. `patch.rs:175–188`. -/
def applyBody : Rule := fun d ↦
  if patch.clearBody || patch.body.isSome then do
    demand (target.kind = .http) "仅 HTTP 任务可改写请求体"
    let body ← newBody F patch
    .ok (Draft.mark { d with spec := { d.spec with body := body } } "请求体")
  else .ok d

/-- Rule 5. `patch.rs:190–198`. -/
def applyCookies : Rule := onField patch.cookies fun cookies d ↦ do
  demand (target.kind ≠ .ftp) ftpHeaderReject
  let d := { d with spec := { d.spec with cookies := cookies } }
  .ok ((d.withHeaders (removeHeaderCi d.spec.extraHeaders "cookie")).mark "Cookie")

/-- A referrer is empty or valid. `patch.rs:205–207`. -/
def checkReferrer (referrer : String) : Except Failure Unit :=
  if referrer = "" then .ok ()
  else do
    let valid ← isValidReferrer referrer
    demand valid "referrer 必须是 http(s) 链接"

/-- Rule 6. `patch.rs:200–212`. -/
def applyReferrer : Rule := onField patch.referrer fun referrer d ↦ do
  demand (target.kind ≠ .ftp) ftpHeaderReject
  checkReferrer referrer
  let d := { d with spec := { d.spec with referrer := referrer } }
  let d := d.withHeaders (removeHeaderCi d.spec.extraHeaders "referer")
  .ok (d.pinReferrer.mark "Referer")

/-- Rule 7. `patch.rs:214–230`. -/
def applyUserAgent : Rule := onField patch.userAgent fun ua d ↦ do
  demand (target.kind ≠ .ftp) ftpHeaderReject
  demand (ua ≠ "" ∧ ua.toList.any isControl = false ∧ F.isHeaderValue ua = true) "userAgent 非法"
  let headers := removeHeaderCi d.spec.extraHeaders "user-agent"
  .ok ((d.withHeaders (headers.insert "User-Agent" ua)).pinUserAgent.mark "User-Agent")

/-- One name of rule 8. `patch.rs:237–247`. -/
def removeNamed (d : Draft) (name : String) : Draft :=
  let d := d.withHeaders (removeHeaderCi d.spec.extraHeaders name)
  if isNamed name "cookie" then { d with spec := { d.spec with cookies := "" } }
  else if isNamed name "referer" then
    Draft.pinReferrer { d with spec := { d.spec with referrer := "" } }
  else if isNamed name "user-agent" then d.pinUserAgent
  else d

/-- Rule 8. `patch.rs:232–249`. -/
def applyRemoveHeaders : Rule := onField patch.removeHeaders fun names d ↦ do
  demand (target.kind ≠ .ftp) ftpHeaderReject
  .ok ((names.foldl removeNamed d).mark "请求头")

/-- One entry of rule 9. `patch.rs:259–267`. -/
def setNamed (d : Draft) (entry : String × String) : Draft :=
  let (name, value) := entry
  let d := d.withHeaders ((removeHeaderCi d.spec.extraHeaders name).insert name value)
  if isNamed name "user-agent" then d.pinUserAgent
  else if isNamed name "referer" then d.pinReferrer
  else d

/-- Rule 9. `patch.rs:251–269`. -/
def applySetHeaders : Rule := onField patch.setHeaders fun headers d ↦ do
  demand (target.kind ≠ .ftp) ftpHeaderReject
  validateHeaders F headers
  .ok ((headers.entries.foldl setNamed d).mark "请求头")

/-- Put the entries of a map over those of other headers. `patch.rs:295–299`. -/
def mergeHeaders (headers : Headers) (other : HeaderMap) : Headers :=
  other.entries.foldl (fun merged (name, value) ↦
    (removeHeaderCi merged name).insert name value) headers

/-- Merge headers into the first rule of an origin, or into a new one. `patch.rs:285–299`. -/
def mergeOrigin (rules : List (OriginHeaders Headers)) (origin : String) (headers : HeaderMap) :
    List (OriginHeaders Headers) :=
  match rules with
  | [] => [⟨origin, mergeHeaders .empty headers⟩]
  | rule :: rules =>
    if rule.origin = origin then { rule with headers := mergeHeaders rule.headers headers } :: rules
    else rule :: mergeOrigin rules origin headers

/-- One rule of rule 10. `patch.rs:279–300`. -/
def applyOriginRule (rules : List (OriginHeaders Headers)) (rule : OriginHeaders HeaderMap) :
    Except Failure (List (OriginHeaders Headers)) := do
  let origin ← expect (normalizeSite F rule.origin) s!"originHeaders.origin '{rule.origin}' 非法"
  validateHeaders F rule.headers
  .ok (mergeOrigin rules origin rule.headers)

/-- Rule 10. `patch.rs:271–302`. -/
def applyOriginHeaders : Rule := onField patch.originHeaders fun rules d ↦ do
  demand (target.kind ≠ .ftp) ftpHeaderReject
  demand (rules.length ≤ maxOriginRules) "originHeaders 最多 32 条"
  let merged ← rules.foldlM (applyOriginRule F) d.spec.originHeaders
  .ok (Draft.mark { d with spec := { d.spec with originHeaders := merged } } "按站点请求头")

/-- Rule 11. `patch.rs:304–313`. -/
def applySegments : Rule := onField patch.segments fun n d ↦ do
  demand (0 ≤ n ∧ n ≤ maxSegments) "segments 超出 0..=512"
  .ok (if d.segments.isSome then Draft.mark { d with segments := some n } "线程数" else d)

/-- Rule 12. `patch.rs:315–324`. -/
def applyMaxConnections : Rule := onField patch.maxConnections fun n d ↦ do
  demand (1 ≤ n ∧ n ≤ maxConnections) "maxConnections 超出 1..=512"
  .ok (if d.cap.isSome then Draft.mark { d with cap := some n } "连接上限" else d)

/-- Rule 12b. `patch.rs:326–338`. -/
def applyMaxRangeBytes : Rule := onField patch.maxRangeBytes fun n d ↦ do
  demand (target.kind = .http) "仅 HTTP 任务可设置 maxRangeBytes"
  demand (minRangeBytes ≤ n) s!"maxRangeBytes 不能小于 {minRangeBytes}（64 KiB）"
  .ok (Draft.mark { d with spec := { d.spec with maxRangeBytes := some n } } "Range 跨度上限")

/-- Rule 13. `patch.rs:340–352`. -/
def applyFileName : Rule := onField patch.fileName fun name d ↦ do
  demand (validFileName name) "fileName 非法"
  .ok (if d.fileName.isSome then Draft.mark { d with fileName := some name } "文件名"
    else { d with out := { d.out with ignoredFileName := true } })

/-- The size hint of a request that must not be probed. `patch.rs:370–374`. -/
def ephemeralHint (hint : Int) : Int :=
  match patch.totalBytes with
  | some n => n
  | none => if hint ≠ 0 then hint else -1

/-- Rule 14. `patch.rs:354–386`. -/
def applyEphemeral : Rule := fun d ↦ do
  let ephemeral := patch.ephemeral = some true
  demand (ephemeral ∨ patch.totalBytes = none ∧ patch.rangeSupported = none)
    "totalBytes / rangeSupported 只能与 ephemeral: true 同用"
  if ephemeral then
    demand (target.kind = .http) "仅 HTTP 任务可声明 ephemeral"
    demand (∀ n ∈ patch.totalBytes, 0 < n) "totalBytes 必须大于 0"
    let d := { d with out := { d.out with ephemeral := true } }
    let d := if d.hint.isSome then
        Draft.mark { d with hint := d.hint.map (ephemeralHint patch) } "跳过探测"
      else d
    let supported := patch.rangeSupported.getD false
    .ok { d with verified := d.verified.map fun v ↦
      if target.isResume then v || supported else supported }
  else .ok d

/-- The rules in their order. -/
def rules : List Rule :=
  [applyReplaceHeaders patch, applyUrl F target patch, applyMethod F target patch,
    applyBody F target patch, applyCookies target patch, applyReferrer target patch,
    applyUserAgent F target patch, applyRemoveHeaders target patch,
    applySetHeaders F target patch, applyOriginHeaders F target patch, applySegments patch,
    applyMaxConnections patch, applyMaxRangeBytes target patch, applyFileName patch,
    applyEphemeral target patch]

/-- Apply rules in their order until one fails. -/
def applyRules (rules : List Rule) : Rule := fun d ↦ rules.foldlM (fun d rule ↦ rule d) d

/-- Store a copy in a slot that is there. -/
def store {α : Type} (slot value : Option α) : Option α := slot.bind fun old ↦ some (value.getD old)

/-- Store all copies. `patch.rs:388–406`. -/
def commit (d : Draft) : RequestTarget :=
  { target with
    url := d.url
    spec := d.spec
    fileName := store target.fileName d.fileName
    segmentCount := store target.segmentCount d.segments
    connectionCap := store target.connectionCap d.cap
    hintFileSize := store target.hintFileSize d.hint
    rangeVerified := store target.rangeVerified d.verified }

/-- Apply a patch: what it answers, and the target after it. `patch.rs:116–407`. -/
def applyRequestPatch : Except Failure PatchOutcome × RequestTarget :=
  match applyRules (rules F target patch) (.ofTarget target) with
  | .error failure => (.error failure, target)
  | .ok d => (.ok d.out, commit target d)

end Rules

/-- The fields a refresh may not rewrite, and whether the patch has them. `patch.rs:412–425`. -/
def refreshForbidden (patch : RequestPatch) : List (String × Bool) :=
  [("method", patch.method.isSome), ("body", patch.body.isSome || patch.clearBody),
    ("segments", patch.segments.isSome), ("maxConnections", patch.maxConnections.isSome),
    ("maxRangeBytes", patch.maxRangeBytes.isSome), ("fileName", patch.fileName.isSome),
    ("ephemeral",
      patch.ephemeral.isSome || patch.totalBytes.isSome || patch.rangeSupported.isSome)]

/-- `patch.rs:411–433`. -/
def checkRefreshPatch (patch : RequestPatch) (kind : ProtocolKind) : Except Failure Unit :=
  match (refreshForbidden patch).find? Prod.snd with
  | some (name, _) => .error (.message s!"refresh 阶段不能改写 {name}")
  | none => demand (patch.url = none ∨ kind = .http) "仅 HTTP 任务的 refresh 可改写 url"

/-- Apply patches one after the other. -/
def applyPatches (target : RequestTarget) (patches : List RequestPatch) : RequestTarget :=
  patches.foldl (fun target patch ↦ (applyRequestPatch F target patch).2) target

end Engine.Intercept
