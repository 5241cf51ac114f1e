import FluxDown.Link.Text
import FluxDown.Link.Types

/-!
# Addresses of peers

Library `Link`. An address is a host, a host and a port, or a URL with a base path. It is parsed
once and stored in one form, so that addresses that differ in spelling only are stored once.
-/

namespace Link

/-- Plain-text port of the local service (`src/native/link/src/address.rs:19–20`). -/
def defaultHttpPort : Nat := 17800

/-- Port of encrypted addresses (`address.rs:21–22`). -/
def defaultHttpsPort : Nat := 443

/-- Schemes (`address.rs:24–29`). -/
inductive Scheme where
  | http
  | https
deriving DecidableEq

/-- The scheme's name (`address.rs:32–37`). -/
def Scheme.asStr : Scheme → String
  | .http => "http"
  | .https => "https"

/-- The port that may be left out (`address.rs:39–47`). -/
def Scheme.omittablePort : Scheme → Option Nat
  | .http => none
  | .https => some defaultHttpsPort

/-- An address in its parts (`address.rs:50–60`). -/
structure PeerAddress where
  scheme : Scheme
  host : String
  port : Nat
  basePath : String
deriving DecidableEq

/-- Split before and after the first occurrence of a separator. -/
def splitOnce (separator : List Char) : List Char → Option (List Char × List Char)
  | [] => if separator.isEmpty then some ([], []) else none
  | c :: rest =>
    if separator.isPrefixOf (c :: rest) then some ([], (c :: rest).drop separator.length)
    else (splitOnce separator rest).map fun (before, after) ↦ (c :: before, after)

/-- A decimal number of 16 bits, with a plus sign or none. -/
def parseU16 (text : List Char) : Option Nat :=
  let digits := match text with
    | '+' :: rest => rest
    | _ => text
  if digits.isEmpty || !digits.all Char.isDigit then none
  else
    let value := digits.foldl (fun n c ↦ n * 10 + (c.toNat - '0'.toNat)) 0
    if value < 65536 then some value else none

/-- A port, from one on (`address.rs:236–241`). -/
def parsePort (text : List Char) : Except LinkError Nat :=
  match (parseU16 text).filter (· ≠ 0) with
  | some port => .ok port
  | none => .error (.badPayload s!"invalid port: {String.ofList text}")

/-! ## Literals of the sixth version -/

/-- The value of a digit in a radix up to sixteen. -/
def digitValue (radix : Nat) (c : Char) : Option Nat :=
  let value := if c.isDigit then c.toNat - '0'.toNat
    else if 'a' ≤ c ∧ c ≤ 'f' then c.toNat - 'a'.toNat + 10
    else if 'A' ≤ c ∧ c ≤ 'F' then c.toNat - 'A'.toNat + 10
    else 16
  if value < radix then some value else none

/-- Read a number of at most so many digits. -/
def readNumber (radix maxDigits bound : Nat) (allowZeroPrefix : Bool) (text : List Char) :
    Option (Nat × List Char) :=
  let digits := text.takeWhile fun c ↦ (digitValue radix c).isSome
  let value := (digits.filterMap (digitValue radix)).foldl (fun n d ↦ n * radix + d) 0
  if digits.isEmpty || decide (maxDigits < digits.length) || decide (bound ≤ value) ||
      !allowZeroPrefix && digits.head? == some '0' && decide (1 < digits.length) then none
  else some (value, text.drop digits.length)

/-- Read a separator, but not before the first part. -/
def readSeparator (separator : Char) (index : Nat) (text : List Char) : Option (List Char) :=
  if index = 0 then some text
  else match text with
    | c :: rest => if c = separator then some rest else none
    | [] => none

/-- Read four decimal numbers with dots between. -/
def readIpv4 (text : List Char) : Option (List Char) :=
  (List.range 4).foldlM (fun text index ↦ do
    let text ← readSeparator '.' index text
    let (_, rest) ← readNumber 10 3 256 false text
    pure rest) text

/-- Read up to `limit` groups; the last two may be written in decimal. The number of groups
read, whether they end in decimal, and the rest. -/
def readGroups (limit : Nat) : Nat → Nat → List Char → Nat × Bool × List Char
  | 0, index, text => (index, false, text)
  | fuel + 1, index, text =>
    let decimal :=
      if index + 1 < limit then (readSeparator ':' index text).bind readIpv4 else none
    match decimal with
    | some rest => (index + 2, true, rest)
    | none => match (readSeparator ':' index text).bind (readNumber 16 4 65536 true) with
      | some (_, rest) => readGroups limit fuel (index + 1) rest
      | none => (index, false, text)

/-- The text is a literal of the sixth version: eight groups, or fewer on both sides of two
colons. -/
def isIpv6 (text : List Char) : Bool :=
  let (size, decimal, rest) := readGroups 8 8 0 text
  if size = 8 then rest.isEmpty
  else if decimal then false
  else match rest with
    | ':' :: ':' :: rest =>
      let limit := 8 - (size + 1)
      (readGroups limit limit 0 rest).2.2.isEmpty
    | _ => false

/-! ## Parsing -/

/-- Check a host (`address.rs:243–262`). -/
def validateHost (host : List Char) : Except LinkError Unit :=
  if host.isEmpty then .error (.badPayload "address host is empty")
  else if ':' ∈ host then
    if isIpv6 host then .ok ()
    else .error (.badPayload s!"invalid IPv6 host: {String.ofList host}")
  else if host.all fun c ↦ c.isAlphanum || c ∈ ['.', '-', '_'] then .ok ()
  else .error (.badPayload s!"invalid host: {String.ofList host}")

/-- Split the port off (`address.rs:211–234`). -/
def splitAuthority (authority : List Char) : Except LinkError (List Char × Option Nat) :=
  match authority with
  | '[' :: rest => match splitOnce [']'] rest with
    | none => .error (.badPayload "unterminated IPv6 literal")
    | some (host, after) => match after with
      | [] => .ok (host, none)
      | ':' :: port => (parsePort port).map fun port ↦ (host, some port)
      | _ => .error (.badPayload "unexpected text after IPv6 literal")
  | _ =>
    if 1 < authority.count ':' then .ok (authority, none)
    else match splitOnce [':'] authority with
      | some (host, port) => (parsePort port).map fun port ↦ (host, some port)
      | none => .ok (authority, none)

/-- Letters in lower case, in ASCII. -/
def asciiLower (text : List Char) : List Char :=
  text.map fun c ↦ if c.isUpper then c.toLower else c

namespace PeerAddress

/-- An address of a host and a port (`address.rs:61–73`). -/
def fromHostPort (host : String) (port : Fin 65536) : Except LinkError PeerAddress :=
  match validateHost host.toList with
  | .error error => .error error
  | .ok () =>
    if port.val = 0 then .error (.badPayload "port must be 1-65535")
    else .ok ⟨.http, host, port.val, ""⟩

/-- The scheme and what follows it (`address.rs:80–93`). -/
def splitScheme (input : List Char) : Except LinkError (Scheme × List Char) :=
  match splitOnce "://".toList input with
  | none => .ok (.http, input)
  | some (scheme, rest) =>
    if asciiLower scheme = "http".toList then .ok (.http, rest)
    else if asciiLower scheme = "https".toList then .ok (.https, rest)
    else .error (.badPayload s!"unsupported address scheme: {String.ofList scheme}")

/-- Parse an address (`address.rs:75–125`). -/
def parse (input : String) : Except LinkError PeerAddress := do
  let input := trim input.toList
  if input.isEmpty then throw (.badPayload "address is empty")
  let (scheme, rest) ← splitScheme input
  let authority := rest.takeWhile (· ∉ ['/', '?', '#'])
  let tail := rest.drop authority.length
  if '@' ∈ authority then throw (.badPayload "credentials in address are not supported")
  let path := tail.takeWhile (· ∉ ['?', '#'])
  let basePath := (path.reverse.dropWhile (· = '/')).reverse
  if basePath.any fun c ↦ isWhitespace c || isControl c then
    throw (.badPayload "invalid address path")
  let (host, explicitPort) ← splitAuthority authority
  validateHost host
  let port := explicitPort.getD (match scheme with
    | .http => defaultHttpPort
    | .https => defaultHttpsPort)
  pure ⟨scheme, String.ofList host, port, String.ofList basePath⟩

/-- The host, in brackets where it has colons. -/
def bracketed (address : PeerAddress) : String :=
  if ':' ∈ address.host.toList then s!"[{address.host}]" else address.host

/-- Host and port (`address.rs:154–168`). -/
def authority (address : PeerAddress) : String :=
  if address.scheme.omittablePort = some address.port then address.bracketed
  else s!"{address.bracketed}:{address.port}"

/-- The base of URLs (`address.rs:170–179`). -/
def baseUrl (address : PeerAddress) : String :=
  s!"{address.scheme.asStr}://{address.authority}{address.basePath}"

/-- The form that is stored (`address.rs:187–200`). -/
def toCandidate (address : PeerAddress) : String :=
  if address.scheme = .http ∧ address.basePath = "" then s!"{address.bracketed}:{address.port}"
  else address.baseUrl

end PeerAddress

end Link
