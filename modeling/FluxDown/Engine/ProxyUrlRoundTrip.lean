import FluxDown.Engine.ProxyConfig
import FluxDown.Link.AddressRoundTrip

/-!
# URLs of proxies are read back

Library `Engine`. A URL of a proxy that is written part by part is read as these parts, and the URL
that is written for a proxy is read as that proxy.
-/

namespace Engine.Proxy

open Base Link

/-! ## Splitting -/

section Split

variable {c : Char} {before after text : List Char}

/-- A text that is not split has no such character. -/
theorem notMem_of_splitOnce_none (h : splitOnce [c] text = none) : c ∉ text := by
  intro hmem
  obtain ⟨before, after, rfl, hnot⟩ := List.eq_append_cons_of_mem hmem
  have hsplit := splitOnce_append hnot after (show [c].head? = some c from rfl)
  rw [List.append_assoc, List.singleton_append, h] at hsplit
  cases hsplit

/-- A text is split at its last such character. -/
theorem rsplitOnce_append (h : c ∉ after) :
    rsplitOnce c (before ++ c :: after) = some (before, after) := by
  have hreverse : (before ++ c :: after).reverse = after.reverse ++ [c] ++ before.reverse := by
    simp
  rw [rsplitOnce, hreverse, splitOnce_append (by simpa using h) _ rfl]
  simp

private theorem rsplitOnce_of_notMem (h : c ∉ text) : rsplitOnce c text = none := by
  rw [rsplitOnce, splitOnce_of_notMem List.mem_cons_self (by simpa using h), Option.map_none]

/-- The last such character is between the parts. -/
theorem rsplitOnce_inv (h : rsplitOnce c text = some (before, after)) :
    text = before ++ c :: after ∧ c ∉ after := by
  obtain ⟨⟨after', before'⟩, hsplit, hsame⟩ := Option.map_eq_some_iff.mp h
  obtain ⟨rfl, rfl⟩ := Prod.mk.inj hsame
  obtain ⟨htext, hnot⟩ := splitOnce_singleton_inv hsplit
  constructor
  · rw [← List.reverse_reverse text, htext]
    simp
  · simpa using hnot

end Split

/-- A number of 16 bits has digits, and a plus sign or none. -/
theorem mem_of_parseU16 {text : List Char} {n : Nat} (h : parseU16 text = some n) :
    n < 65536 ∧ ∀ c ∈ text, c = '+' ∨ c.isDigit = true := by
  have hread : ∀ digits : List Char,
      (if digits.isEmpty || !digits.all Char.isDigit then none
        else
          let value := digits.foldl (fun n c ↦ n * 10 + (c.toNat - '0'.toNat)) 0
          if value < 65536 then some value else none) = some n →
        n < 65536 ∧ ∀ c ∈ digits, c.isDigit = true := by
    intro digits hdigits
    split at hdigits
    · cases hdigits
    · next hall =>
      dsimp only at hdigits
      split at hdigits
      · next hlt =>
        have hall' : digits ≠ [] ∧ ∀ c ∈ digits, c.isDigit = true := by simpa using hall
        refine ⟨?_, hall'.2⟩
        rw [← Option.some.inj hdigits]
        exact hlt
      · cases hdigits
  unfold parseU16 at h
  split at h
  · next rest =>
    obtain ⟨hlt, hall⟩ := hread rest h
    refine ⟨hlt, fun c hc ↦ ?_⟩
    rcases List.mem_cons.mp hc with rfl | hc
    · exact .inl rfl
    · exact .inr (hall c hc)
  · obtain ⟨hlt, hall⟩ := hread text h
    exact ⟨hlt, fun c hc ↦ .inr (hall c hc)⟩

/-! ## Parts -/

/-- A URL of a proxy in its parts; the host is as it is written, with brackets. -/
structure UrlParts where
  scheme : List Char
  userinfo : Option (List Char)
  host : List Char
  port : List Char

/-- A host in brackets. -/
def Bracketed (host : List Char) : Prop := ∃ inner, host = '[' :: (inner ++ [']']) ∧ ']' ∉ inner

/-- A closing bracket is only at the end of the host. -/
def BracketLast (host : List Char) : Prop := ']' ∉ host.dropLast

namespace UrlParts

/-- Credentials as they are written. -/
def userinfoText : Option (List Char) → List Char
  | some userinfo => userinfo ++ ['@']
  | none => []

/-- The URL of the parts. -/
def text (parts : UrlParts) : List Char :=
  parts.scheme ++ "://".toList ++
    (userinfoText parts.userinfo ++ (parts.host ++ ':' :: parts.port))

/-- User name and password of credentials. -/
def credentials : Option (List Char) → List Char × List Char
  | some userinfo =>
    if userinfo.isEmpty then ([], [])
    else match splitOnce [':'] userinfo with
      | some (username, password) => (percentDecode username, percentDecode password)
      | none => (percentDecode userinfo, [])
  | none => ([], [])

/-- Parts that can be told apart: the scheme is known, the host is in brackets or has no colon, and
the port is a number. -/
structure Sound (parts : UrlParts) (proxyType : ProxyType) (number : Nat) : Prop where
  scheme : ProxyType.parseStr (String.ofList parts.scheme) = some proxyType
  hostNonempty : parts.host ≠ []
  hostChars : ∀ c ∈ ['@', '/'], c ∉ parts.host
  host : Bracketed parts.host ∨ ':' ∉ parts.host
  port : parseU16 parts.port = some number
  numberPos : number ≠ 0

section Sound

variable {parts : UrlParts} {proxyType : ProxyType} {number : Nat}

private theorem colon_notMem_scheme {scheme : List Char}
    (h : ProxyType.parseStr (String.ofList scheme) = some proxyType) :
    ':' ∉ scheme ∧ scheme ≠ "direct".toList ∧ scheme ≠ "system".toList := by
  have hmem : String.ofList scheme ∈ ["http", "https", "socks4", "socks4a", "socks5", "socks5h"] := by
    by_contra hnot
    simp only [List.mem_cons, List.not_mem_nil, or_false, not_or] at hnot
    simp [ProxyType.parseStr, hnot] at h
  have hchars : ∀ known ∈ ["http", "https", "socks4", "socks4a", "socks5", "socks5h"],
      ':' ∉ known.toList ∧ known.toList ≠ "direct".toList ∧ known.toList ≠ "system".toList := by
    decide
  have hknown := hchars _ hmem
  rwa [String.toList_ofList] at hknown

private theorem Sound.port_chars (h : parts.Sound proxyType number) :
    ∀ c ∈ ['@', '/', ':', ']'], c ∉ parts.port := by
  intro c hc hmem
  rcases (mem_of_parseU16 h.port).2 c hmem with rfl | hdigit
  · revert hc
    decide
  · have hall : ∀ c ∈ ['@', '/', ':', ']'], c.isDigit = false := forall_mem_of_all (by decide)
    rw [hall c hc] at hdigit
    cases hdigit

/-- Neither a sign of credentials nor a path is after the credentials. -/
theorem Sound.hostPort_chars (h : parts.Sound proxyType number) :
    ∀ c ∈ ['@', '/'], c ∉ parts.host ++ ':' :: parts.port := by
  intro c hc hmem
  rcases List.mem_append.mp hmem with hmem | hmem
  · exact h.hostChars c hc hmem
  · rcases List.mem_cons.mp hmem with rfl | hmem
    · revert hc
      decide
    · refine h.port_chars c ?_ hmem
      revert hc
      simp only [List.mem_cons]
      tauto

private theorem rsplitOnce_userinfo (userinfo : Option (List Char)) {hostPort : List Char}
    (h : '@' ∉ hostPort) :
    (rsplitOnce '@' (userinfoText userinfo ++ hostPort)).getD
        ([], userinfoText userinfo ++ hostPort) = (userinfo.getD [], hostPort) := by
  cases userinfo with
  | none =>
    rw [userinfoText, List.nil_append, rsplitOnce_of_notMem h]
    rfl
  | some userinfo =>
    rw [userinfoText, List.append_assoc, List.singleton_append, rsplitOnce_append h]
    rfl

/-- The host and the port are read as they are written, unless a bracket ends the host early. -/
theorem Sound.parseHostPort (h : parts.Sound proxyType number) (hbracket : BracketLast parts.host) :
    Proxy.parseHostPort (parts.host ++ ':' :: parts.port) = (none, parts.host, number) := by
  have hslash := h.hostPort_chars '/' (by decide)
  unfold Proxy.parseHostPort
  rw [splitOnce_of_notMem (show '/' ∈ "://".toList by decide) hslash]
  dsimp only
  by_cases hnone : ']' ∈ parts.host
  · have hhost : parts.host.dropLast ++ [']'] = parts.host := by
      have hconcat := List.dropLast_append_getLast h.hostNonempty
      rw [← hconcat, List.mem_append, List.mem_singleton] at hnone
      rwa [← hnone.resolve_left hbracket] at hconcat
    have hsplit := splitOnce_append hbracket (':' :: parts.port)
      (show [']'].head? = some ']' from rfl)
    rw [hhost] at hsplit
    rw [hsplit]
    simp [h.port, hhost]
  · have hnot : ']' ∉ parts.host ++ ':' :: parts.port := by
      have hport := h.port_chars ']' (by decide)
      simp [hnone, hport]
    have hnonempty : ¬ parts.host.isEmpty = true := by simpa using h.hostNonempty
    rw [splitOnce_of_notMem List.mem_cons_self hnot]
    dsimp only
    rw [rsplitOnce_append (h.port_chars ':' (by decide))]
    dsimp only
    rw [if_neg hnonempty, h.port]
    rfl

/-- A bracket in the middle ends the host, and no port is read. The check of proxies lets such hosts
pass, where the URL crate takes a backslash before the bracket for the start of a path. -/
theorem parseHostPort_of_bracket {before rest : List Char} (hbefore : ']' ∉ before)
    (hslash : '/' ∉ before ++ ']' :: rest) (hrest : rest.head? ≠ some ':') :
    Proxy.parseHostPort (before ++ ']' :: rest) = (none, before ++ [']'], 8080) := by
  have hsplit := splitOnce_append hbefore rest (show [']'].head? = some ']' from rfl)
  rw [List.append_assoc, List.singleton_append] at hsplit
  unfold Proxy.parseHostPort
  rw [splitOnce_of_notMem (show '/' ∈ "://".toList by decide) hslash]
  dsimp only
  rw [hsplit]
  cases rest with
  | nil => rfl
  | cons c rest =>
    dsimp only
    split
    · next port hcolon =>
      rw [hcolon] at hrest
      exact absurd rfl hrest
    · rfl

/-- A URL is read as its parts. -/
theorem Sound.fromProxyUrl (h : parts.Sound proxyType number)
    (hbracket : BracketLast parts.host) :
    ProxyConfig.fromProxyUrl (String.ofList parts.text) =
      { mode := .manual
        proxyType
        host := String.ofList parts.host
        port := number
        username := String.ofList (credentials parts.userinfo).1
        password := String.ofList (credentials parts.userinfo).2 } := by
  obtain ⟨hcolon, hdirect, hsystem⟩ := colon_notMem_scheme h.scheme
  have hsplit : splitOnce "://".toList parts.text =
      some (parts.scheme, userinfoText parts.userinfo ++ (parts.host ++ ':' :: parts.port)) :=
    splitOnce_append hcolon _ (by decide)
  -- the two texts that stand for something else have other schemes
  have hne : ∀ text : String, ∀ scheme rest : List Char,
      splitOnce "://".toList text.toList = some (scheme, rest) → parts.scheme ≠ scheme →
        String.ofList parts.text ≠ text := by
    rintro text scheme rest htext hscheme rfl
    rw [@String.toList_ofList parts.text, hsplit] at htext
    exact hscheme (Prod.mk.inj (Option.some.inj htext)).1
  have hempty : String.ofList parts.text ≠ "" := by
    intro hempty
    have hnil := congrArg String.toList hempty
    rw [String.toList_ofList] at hnil
    rw [hnil] at hsplit
    cases hsplit
  have hdirect' := hne ProxyConfig.directSentinel "direct".toList [] (by decide) hdirect
  have hsystem' := hne ProxyConfig.systemSentinel "system".toList [] (by decide) hsystem
  unfold ProxyConfig.fromProxyUrl
  rw [if_neg (not_or.mpr ⟨hempty, hdirect'⟩), if_neg hsystem', @String.toList_ofList parts.text, hsplit]
  dsimp only [Option.getD_some]
  rw [rsplitOnce_userinfo _ (h.hostPort_chars '@' (by decide))]
  dsimp only
  rw [h.parseHostPort hbracket, h.scheme]
  cases parts.userinfo with
  | none => rfl
  | some userinfo => rfl

end Sound

end UrlParts

/-! ## Written URLs -/

private theorem isUserinfoSafe_spec : ∀ n < 256, isUserinfoSafe (UInt8.ofNat n) = true →
    n < 128 ∧ n ≠ 37 ∧ Char.ofNat n ≠ ':' := by
  decide +kernel

private theorem percentDecode_percentEncodeUserinfo (text : List Char) :
    percentDecode (percentEncodeUserinfo text) = text := by
  have hsafe : ∀ b, isUserinfoSafe b = true → b.toNat < 128 ∧ b.toNat ≠ 37 := by
    intro b hb
    rw [← @UInt8.ofNat_toNat b] at hb
    obtain ⟨hlt, hne, -⟩ := isUserinfoSafe_spec _ b.toNat_lt hb
    exact ⟨hlt, hne⟩
  rw [percentDecode, percentEncodeUserinfo, percentDecodeBytes_percentEncodeBytes hsafe,
    fromUtf8_utf8Bytes, Option.getD_some]

private theorem colon_notMem_percentEncodeUserinfo (text : List Char) :
    ':' ∉ percentEncodeUserinfo text := by
  intro hmem
  rcases mem_percentEncodeBytes hmem with ⟨b, hb, hcolon⟩ | hpercent | hdigit
  · rw [← @UInt8.ofNat_toNat b] at hb
    exact (isUserinfoSafe_spec _ b.toNat_lt hb).2.2 hcolon.symm
  · revert hpercent
    decide
  · revert hdigit
    decide

/-- A number that was written is read. -/
theorem parseU16_toDigits {port : Nat} (hpos : port ≠ 0) (hlt : port < 65536) :
    parseU16 (Nat.toDigits 10 port) = some port := by
  have hport := parsePort_toDigits (Nat.pos_of_ne_zero hpos) hlt
  unfold parsePort at hport
  split at hport
  · next value hvalue =>
    obtain rfl : value = port := Except.ok.inj hport
    exact (Option.filter_eq_some_iff.mp hvalue).1
  · cases hport

namespace ProxyConfig

/-- The credentials of a proxy, as they are written. -/
def userinfo (config : ProxyConfig) : Option (List Char) :=
  if config.username ≠ "" then
    some (percentEncodeUserinfo config.username.toList ++
      ':' :: percentEncodeUserinfo config.password.toList)
  else none

/-- The parts of the URL of a proxy. -/
def urlParts (config : ProxyConfig) : UrlParts where
  scheme := config.proxyType.scheme.toList
  userinfo := config.userinfo
  host := config.host.toList
  port := Nat.toDigits 10 config.port

variable {config : ProxyConfig}

private theorem toProxyUrl_eq (hmode : config.mode = .manual) (hhost : config.host ≠ "")
    (hport : config.port ≠ 0) : config.toProxyUrl = some (String.ofList config.urlParts.text) := by
  unfold toProxyUrl
  rw [hmode]
  dsimp only
  rw [if_neg (not_or.mpr ⟨hhost, hport⟩)]
  split
  · next husername =>
    have hinfo : config.userinfo = some (percentEncodeUserinfo config.username.toList ++
        ':' :: percentEncodeUserinfo config.password.toList) := if_pos husername
    have htext : (config.proxyType.scheme ++ "://" ++
        String.ofList (percentEncodeUserinfo config.username.toList) ++ ":" ++
          String.ofList (percentEncodeUserinfo config.password.toList) ++ "@" ++ config.host ++ ":" ++
            toString config.port).toList = config.urlParts.text := by
      simp [UrlParts.text, urlParts, hinfo, UrlParts.userinfoText]
    rw [← htext, String.ofList_toList]
    rfl
  · next husername =>
    have hinfo : config.userinfo = none := if_neg husername
    have htext : (config.proxyType.scheme ++ "://" ++ config.host ++ ":" ++
        toString config.port).toList = config.urlParts.text := by
      simp [UrlParts.text, urlParts, hinfo, UrlParts.userinfoText]
    rw [← htext, String.ofList_toList]
    rfl

private theorem credentials_userinfo (h : config.username ≠ "" ∨ config.password = "") :
    UrlParts.credentials config.userinfo = (config.username.toList, config.password.toList) := by
  unfold userinfo
  split
  · have hsplit := splitOnce_append (colon_notMem_percentEncodeUserinfo config.username.toList)
      (percentEncodeUserinfo config.password.toList) (show [':'].head? = some ':' from rfl)
    rw [List.append_assoc, List.singleton_append] at hsplit
    rw [UrlParts.credentials, if_neg (by simp), hsplit]
    simp only [percentDecode_percentEncodeUserinfo]
  · next husername =>
    have husername : config.username = "" := not_not.mp husername
    have hpassword := h.resolve_left (not_not.mpr husername)
    rw [UrlParts.credentials, husername, hpassword]
    rfl

/-- The URL of a proxy is read as that proxy. -/
theorem fromProxyUrl_toProxyUrl {parts : UrlParts} {proxyType : ProxyType} {number : Nat}
    (h : parts.Sound proxyType number) (hbracket : BracketLast parts.host)
    (hmode : config.mode = .manual) (hhost : config.host = String.ofList parts.host)
    (hport : config.port = number) (hnoProxy : config.noProxyList = "")
    (hcredentials : config.username ≠ "" ∨ config.password = "") :
    ∃ url, config.toProxyUrl = some url ∧ fromProxyUrl url = config := by
  have hscheme : ProxyType.parseStr config.proxyType.scheme = some config.proxyType := by
    cases config.proxyType <;> decide
  have hchars : config.host.toList = parts.host := by rw [hhost, String.toList_ofList]
  have hne : config.host ≠ "" := by
    intro hempty
    rw [hempty] at hchars
    exact h.hostNonempty hchars.symm
  have hnumber : config.port ≠ 0 := by
    rw [hport]
    exact h.numberPos
  have hlt : config.port < 65536 := by
    rw [hport]
    exact (mem_of_parseU16 h.port).1
  have hsound : config.urlParts.Sound config.proxyType config.port := by
    constructor
    case scheme => rwa [urlParts, String.ofList_toList]
    case hostNonempty => rw [urlParts, hchars]; exact h.hostNonempty
    case hostChars => rw [urlParts, hchars]; exact h.hostChars
    case host => rw [urlParts, hchars]; exact h.host
    case port => exact parseU16_toDigits hnumber hlt
    case numberPos => exact hnumber
  refine ⟨_, toProxyUrl_eq hmode hne hnumber, ?_⟩
  rw [hsound.fromProxyUrl (by rw [urlParts, hchars]; exact hbracket)]
  rw [show config.urlParts.userinfo = config.userinfo from rfl, credentials_userinfo hcredentials]
  cases config
  simp only [urlParts, String.ofList_toList] at hmode hnoProxy ⊢
  rw [hmode, hnoProxy]

end ProxyConfig

end Engine.Proxy
