import FluxDown.Base.Utf8
import FluxDown.Link.Address

/-!
# Hosts that are not sent through a proxy

Library `Engine`. Lists of hosts, names and nets, as they come from users and systems, and the hosts
of this machine, which are never sent through a proxy.
-/

namespace Engine.Proxy

open Base Link

/-! ## Addresses -/

/-- An address of one of the two versions. -/
inductive IpAddr where
  | v4 (bits : BitVec 32)
  | v6 (bits : BitVec 128)
deriving DecidableEq

/-- Read four decimal numbers with dots between, as one number. -/
def readOctets (text : List Char) : Option (Nat × List Char) :=
  (List.range 4).foldlM (fun (value, text) index ↦ do
    let text ← readSeparator '.' index text
    let (octet, rest) ← readNumber 10 3 256 false text
    pure (value * 256 + octet, rest)) (0, text)

/-- Read up to `limit` groups; the last two may be written in decimal. The groups read, whether they
end in decimal, and the rest. -/
def readGroupValues (limit : Nat) : Nat → Nat → List Char → List Nat × Bool × List Char
  | 0, _, text => ([], false, text)
  | fuel + 1, index, text =>
    let decimal := if index + 1 < limit then (readSeparator ':' index text).bind readOctets else none
    match decimal with
    | some (value, rest) => ([value / 65536, value % 65536], true, rest)
    | none => match (readSeparator ':' index text).bind (readNumber 16 4 65536 true) with
      | some (group, rest) =>
        let (groups, decimal, rest) := readGroupValues limit fuel (index + 1) rest
        (group :: groups, decimal, rest)
      | none => ([], false, text)

/-- An address of the fourth version. -/
def parseIpv4 (text : List Char) : Option (BitVec 32) :=
  match readOctets text with
  | some (value, []) => some (BitVec.ofNat 32 value)
  | _ => none

/-- Eight groups, or fewer on both sides of two colons. -/
def parseIpv6Groups (text : List Char) : Option (List Nat) :=
  let (head, decimal, rest) := readGroupValues 8 8 0 text
  if head.length = 8 then if rest.isEmpty then some head else none
  else if decimal then none
  else match rest with
    | ':' :: ':' :: rest =>
      let limit := 8 - (head.length + 1)
      let (tail, _, rest) := readGroupValues limit limit 0 rest
      if rest.isEmpty then
        some (head ++ List.replicate (8 - head.length - tail.length) 0 ++ tail)
      else none
    | _ => none

/-- An address of the sixth version. -/
def parseIpv6 (text : List Char) : Option (BitVec 128) :=
  (parseIpv6Groups text).map fun groups ↦
    BitVec.ofNat 128 (groups.foldl (fun value group ↦ value * 65536 + group) 0)

/-- An address of any version. -/
def parseIp (text : List Char) : Option IpAddr :=
  match parseIpv4 text with
  | some bits => some (.v4 bits)
  | none => (parseIpv6 text).map .v6

/-- The text of an address of the fourth version. -/
def ipv4Text (bits : BitVec 32) : String :=
  let n := bits.toNat
  s!"{n / 16777216}.{n / 65536 % 256}.{n / 256 % 256}.{n % 256}"

/-- The eight groups. -/
def groupsOf (bits : BitVec 128) : List Nat :=
  (List.range 8).map fun index ↦ bits.toNat / 65536 ^ (7 - index) % 65536

/-- The longest run of zeros, as its start and length; of several, the first. -/
def longestZeros (groups : List Nat) : Nat × Nat :=
  (List.range groups.length).foldl (fun best start ↦
    let length := ((groups.drop start).takeWhile (· = 0)).length
    if best.2 < length then (start, length) else best) (0, 0)

/-- Groups with colons between. -/
def groupsText (groups : List Nat) : String :=
  String.intercalate ":" (groups.map fun group ↦ String.ofList (Nat.toDigits 16 group))

/-- The text of an address of the sixth version. -/
def ipv6Text (bits : BitVec 128) : String :=
  let groups := groupsOf bits
  if groups.take 6 = [0, 0, 0, 0, 0, 65535] then s!"::ffff:{ipv4Text (bits.setWidth 32)}"
  else
    let (start, length) := longestZeros groups
    if 1 < length then
      s!"{groupsText (groups.take start)}::{groupsText (groups.drop (start + length))}"
    else groupsText groups

/-- Both addresses are in one net of so many bits. -/
def sameNet (net ip : IpAddr) (bits : Nat) : Bool :=
  match net, ip with
  | .v4 net, .v4 ip =>
    let mask := BitVec.allOnes 32 <<< (32 - bits)
    decide (bits ≤ 32) && net &&& mask == ip &&& mask
  | .v6 net, .v6 ip =>
    let mask := BitVec.allOnes 128 <<< (128 - bits)
    decide (bits ≤ 128) && net &&& mask == ip &&& mask
  | _, _ => false

/-! ## Lists -/

/-- A decimal number below a bound, with a plus sign or none. -/
def parseUnsigned (bound : Nat) (text : List Char) : Option Nat :=
  let digits := match text with
    | '+' :: rest => rest
    | _ => text
  if digits.isEmpty || !digits.all Char.isDigit then none
  else
    let value := digits.foldl (fun n c ↦ n * 10 + (c.toNat - '0'.toNat)) 0
    if value < bound then some value else none

/-- Split at commas and semicolons. -/
def splitList (list : List Char) : List (List Char) :=
  list.splitOnP fun c ↦ c = ',' || c = ';'

/-- Octets with dots between, filled up to four. -/
def fillOctets (octets : List (List Char)) : String :=
  String.ofList (List.intercalate ['.']
    (octets ++ List.replicate (4 - octets.length) "0".toList))

/-- One to three octets. -/
def areOctets (octets : List (List Char)) : Bool :=
  decide (1 ≤ octets.length ∧ octets.length ≤ 3) &&
    octets.all fun octet ↦ (parseUnsigned 256 octet).isSome

/-- A net whose address is cut short (`src/native/engine/src/proxy_config.rs:470–481`). -/
def expandAbbreviatedIpv4Cidr (entry : List Char) : Option String :=
  match splitOnce ['/'] entry with
  | none => none
  | some (start, bits) =>
    let octets := start.splitOnP (· = '.')
    if areOctets octets && (parseUnsigned 256 bits).any (· ≤ 32) then
      some s!"{fillOctets octets}/{String.ofList bits}"
    else none

/-- An entry of a list as the HTTP client knows it (`proxy_config.rs:430–464`). -/
def normalizeEntry (entry : List Char) : List String :=
  if entry.isEmpty then []
  else if asciiLower entry = "<local>".toList then
    ["localhost", "127.0.0.0/8", "::1", "10.0.0.0/8", "172.16.0.0/12", "192.168.0.0/16"]
  else if "*.".toList.isPrefixOf entry then [s!".{String.ofList (entry.drop 2)}"]
  else
    let octets := (entry.take (entry.length - 2)).splitOnP (· = '.')
    if ".*".toList.isSuffixOf entry && areOctets octets then
      [s!"{fillOctets octets}/{octets.length * 8}"]
    else match expandAbbreviatedIpv4Cidr entry with
      | some cidr => [cidr]
      | none => [String.ofList entry]

/-- A list as the HTTP client knows it (`proxy_config.rs:427–467`). -/
def normalizeNoProxy (list : String) : String :=
  String.intercalate "," ((splitList list.toList).flatMap fun entry ↦ normalizeEntry (trim entry))

/-- This machine (`proxy_config.rs:484`). -/
def loopbackEntries : List String := ["localhost", "127.0.0.0/8", "::1"]

/-- This machine and the hosts of the user (`proxy_config.rs:488–496`). -/
def loopbackNoProxy (userList : String) : String :=
  let entries := (normalizeNoProxy userList).toList.splitOnP (· = ',')
  String.intercalate "," (entries.foldl (fun out entry ↦
    if entry.isEmpty || out.any fun other ↦ asciiLower other.toList = asciiLower entry then out
    else out ++ [String.ofList entry]) loopbackEntries)

/-- The list that goes with a proxy; the switch for tests is off (`proxy_config.rs:511–517`). -/
def proxyBypassList (userList : String) : String := loopbackNoProxy userList

/-- Without a start, as often as it is there. -/
def trimStart (start : List Char) : Nat → List Char → List Char
  | 0, text => text
  | fuel + 1, text =>
    if start.isPrefixOf text then trimStart start fuel (text.drop start.length) else text

/-- An entry covers a host (`proxy_config.rs:526–563`). -/
def entryMatches (host : List Char) (entry : List Char) : Bool :=
  if entry.isEmpty then false
  else if entry = ['*'] then true
  else
    let net := (splitOnce ['/'] entry).bind fun (net, bits) ↦ do
      let net ← parseIp net
      let bits ← parseUnsigned 4294967296 bits
      let ip ← parseIp host
      pure (sameNet net ip bits)
    match net with
    | some inNet => inNet
    | none =>
      let name := (trimStart "*.".toList entry.length entry).dropWhile (· = '.')
      decide (host = name) || ('.' :: name).isSuffixOf host

/-- A list covers a host (`proxy_config.rs:521–566`). -/
def hostMatchesNoProxy (host list : String) : Bool :=
  let host := asciiLower (trimMatches (fun c ↦ c = '[' || c = ']') host.toList)
  (splitList list.toList).any fun entry ↦ entryMatches host (asciiLower (trim entry))

/-- The host is this machine (`proxy_config.rs:571–574`). -/
def isLoopbackBypassed (host : String) : Bool :=
  hostMatchesNoProxy host (String.intercalate "," loopbackEntries)

example : parseIpv6 "2001:db8::1".toList = some 0x20010db8000000000000000000000001#128 := by
  decide

example : (parseIpv6 "2001:DB8:0:0:1::1".toList).map ipv6Text = some "2001:db8::1:0:0:1" := by
  decide +kernel

example : isLoopbackBypassed "127.1.2.3" ∧ isLoopbackBypassed "LocalHost" ∧
    ¬ isLoopbackBypassed "10.1.2.3" := by decide +kernel

end Engine.Proxy
