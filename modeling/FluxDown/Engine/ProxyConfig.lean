import FluxDown.Base.Percent
import FluxDown.Engine.ProxyHosts

/-!
# Proxies and their URLs

Library `Engine`. A proxy is an endpoint with its protocol and credentials. Its URL is written for the
HTTP client, and URLs are read that users gave for a single task or for a rule.
-/

namespace Engine.Proxy

open Base Link

/-- How a proxy is found (`src/native/engine/src/proxy_config.rs:23–36`). -/
inductive ProxyMode where
  | none
  | system
  | manual
  | auto
deriving DecidableEq

/-- Read a mode; what is not known is no proxy (`proxy_config.rs:43–50`). -/
def ProxyMode.parseStr (s : String) : ProxyMode :=
  if s = "system" then .system
  else if s = "manual" then .manual
  else if s = "auto" then .auto
  else .none

/-- The protocol of the endpoint (`proxy_config.rs:80–96`). -/
inductive ProxyType where
  | http
  | https
  | socks4
  | socks4a
  | socks5
deriving DecidableEq

namespace ProxyType

/-- Read a protocol (`proxy_config.rs:105–116`). -/
def parseStr (s : String) : Option ProxyType :=
  if s = "http" then some .http
  else if s = "https" then some .https
  else if s = "socks4" then some .socks4
  else if s = "socks4a" then some .socks4a
  else if s = "socks5" ∨ s = "socks5h" then some .socks5
  else none

/-- The protocol as it is stored (`proxy_config.rs:119–127`). -/
def asStr : ProxyType → String
  | .http => "http"
  | .https => "https"
  | .socks4 => "socks4"
  | .socks4a => "socks4a"
  | .socks5 => "socks5"

/-- The scheme for the HTTP client; with the fifth version of SOCKS the proxy looks names up
(`proxy_config.rs:142–150`). -/
def scheme : ProxyType → String
  | .http => "http"
  | .https => "https"
  | .socks4 => "socks4"
  | .socks4a => "socks4a"
  | .socks5 => "socks5h"

end ProxyType

/-- A proxy. Rules are only in the global configuration, see `GlobalConfig`
(`proxy_config.rs:165–197`). -/
structure ProxyConfig where
  mode : ProxyMode := .none
  proxyType : ProxyType := .http
  host : String := ""
  port : Nat := 0
  username : String := ""
  password : String := ""
  noProxyList : String := ""
deriving DecidableEq

/-! ## Texts -/

/-- Split before and after the last occurrence of a character. -/
def rsplitOnce (c : Char) (text : List Char) : Option (List Char × List Char) :=
  (splitOnce [c] text.reverse).map fun (after, before) ↦ (before.reverse, after.reverse)

/-- Read credentials; what is not a text then stays as it is (`proxy_config.rs:1209–1230`). -/
def percentDecode (text : List Char) : List Char :=
  (fromUtf8 (percentDecodeBytes (utf8Bytes text))).getD text

/-- Bytes that credentials may have as they are (`proxy_config.rs:1239–1246`). -/
def isUserinfoSafe (b : UInt8) : Bool :=
  let c := Char.ofNat b.toNat
  c.isAlphanum || c ∈ "-._~!$&'()*+,;=".toList

/-- Write credentials (`proxy_config.rs:1235–1254`). -/
def percentEncodeUserinfo (text : List Char) : List Char :=
  percentEncodeBytes isUserinfoSafe (utf8Bytes text)

/-- A host and a port; where no port can be read it is 8080 (`proxy_config.rs:1152–1191`). -/
def parseHostPort (address : List Char) : Option ProxyType × List Char × Nat :=
  let (schemeType, address) := match splitOnce "://".toList address with
    | some (scheme, rest) =>
      let scheme := String.ofList (asciiLower scheme)
      (if scheme = "socks5" ∨ scheme = "socks5h" then some ProxyType.socks5 else none, rest)
    | none => (none, address)
  match splitOnce [']'] address with
  | some (before, rest) =>
    let port := match rest with
      | ':' :: port => parseU16 port
      | _ => none
    (schemeType, before ++ [']'], port.getD 8080)
  | none =>
    let bare := (schemeType, address, if address.isEmpty then 0 else 8080)
    match rsplitOnce ':' address with
    | some (host, port) =>
      if host.isEmpty then bare else (schemeType, host, (parseU16 port).getD 8080)
    | none => bare

namespace ProxyConfig

/-- Straight to the server (`proxy_config.rs:337`). -/
def directSentinel : String := "direct://"

/-- The proxy of the system (`proxy_config.rs:342`). -/
def systemSentinel : String := "system://"

/-- The URL for the HTTP client (`proxy_config.rs:260–288`). -/
def toProxyUrl (config : ProxyConfig) : Option String :=
  match config.mode with
  | .none => none
  | .system => none
  | .auto => none
  | .manual =>
    if config.host = "" ∨ config.port = 0 then none
    else
      let scheme := config.proxyType.scheme
      if config.username ≠ "" then
        let user := String.ofList (percentEncodeUserinfo config.username.toList)
        let pass := String.ofList (percentEncodeUserinfo config.password.toList)
        some s!"{scheme}://{user}:{pass}@{config.host}:{config.port}"
      else some s!"{scheme}://{config.host}:{config.port}"

/-- Read the URL of a proxy; what is not known as a scheme is HTTP (`proxy_config.rs:353–410`). -/
def fromProxyUrl (url : String) : ProxyConfig :=
  if url = "" ∨ url = directSentinel then {}
  else if url = systemSentinel then { mode := .system }
  else
    let (scheme, rest) := (splitOnce "://".toList url.toList).getD ("http".toList, url.toList)
    let proxyType := (ProxyType.parseStr (String.ofList scheme)).getD .http
    let (auth, hostPort) := (rsplitOnce '@' rest).getD ([], rest)
    let (username, password) :=
      if auth.isEmpty then ([], [])
      else match splitOnce [':'] auth with
        | some (username, password) => (percentDecode username, percentDecode password)
        | none => (percentDecode auth, [])
    let (_, host, port) := parseHostPort hostPort
    { mode := .manual
      proxyType
      host := String.ofList host
      port
      username := String.ofList username
      password := String.ofList password }

end ProxyConfig

end Engine.Proxy
