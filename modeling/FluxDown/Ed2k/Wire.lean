import FluxDown.Base.Arrivals
import FluxDown.Base.Saturating
import FluxDown.Ed2k.Frames

/-!
# The codec of frames

Library `Ed2k`. Reading and writing of frames, of requests for parts, and of every message that comes
in, with the data they carry. Every index, slice and sum that could leave its bounds ends the call
with a panic; machine words have 64 bits. Inflating is a parameter, the reads of the decoder.
-/

namespace Ed2k.Wire

open Base

/-! ## Words -/

/-- How a call ends early. -/
inductive Abort where
  | error (e : DownloadError)
  | panicked
deriving DecidableEq

/-- The result of a call. -/
abbrev Outcome (α : Type) := Except Abort α

/-- A call ends with an error. -/
def fail {α : Type} (text : String) : Outcome α := .error (.error (.ed2k text))

/-- Addition of words. -/
def addUsize (a b : Nat) : Outcome Nat := if a + b ≤ maxU64 then .ok (a + b) else .error .panicked

/-- Multiplication of words. -/
def mulUsize (a b : Nat) : Outcome Nat := if a * b ≤ maxU64 then .ok (a * b) else .error .panicked

/-- Subtraction of numbers without sign. -/
def subU32 (a b : Nat) : Outcome Nat := if b ≤ a then .ok (a - b) else .error .panicked

/-- `buf[i]`. -/
def byteAt (buf : List UInt8) (i : Nat) : Outcome UInt8 := buf[i]?.elim (.error .panicked) .ok

/-- `buf.get(start..stop)`. -/
def getRange (buf : List UInt8) (start stop : Nat) : Option (List UInt8) :=
  if start ≤ stop ∧ stop ≤ buf.length then some ((buf.drop start).take (stop - start)) else none

/-- `buf.get(start..)`. -/
def getFrom (buf : List UInt8) (start : Nat) : Option (List UInt8) :=
  if start ≤ buf.length then some (buf.drop start) else none

/-- The value, or an error. -/
def okOr {α : Type} (value : Option α) (text : String) : Outcome α := value.elim (fail text) .ok

/-- The lowest bytes of a number, the lowest first. -/
def leBytes : Nat → Nat → List UInt8
  | 0, _ => []
  | width + 1, n => UInt8.ofNat (n % 256) :: leBytes width (n / 256)

/-- Read a number of so many bytes. -/
def readNumber (width : Nat) (name : String) (buf : List UInt8) (off : Nat) : Outcome Nat := do
  let stop ← addUsize off width
  let slice ← okOr (getRange buf off stop) s!"frame truncated ({name})"
  let bytes ← (List.range width).mapM (byteAt slice)
  .ok (leNat bytes)

/-- `src/native/engine/src/ed2k/proto.rs:122–126`. -/
def readU16Le : List UInt8 → Nat → Outcome Nat := readNumber 2 "u16"

/-- `proto.rs:128–132`. -/
def readU32Le : List UInt8 → Nat → Outcome Nat := readNumber 4 "u32"

/-- `proto.rs:134–138`. -/
def readU64Le : List UInt8 → Nat → Outcome Nat := readNumber 8 "u64"

/-- An offset, which has eight bytes in the large form. -/
def readOffset (large : Bool) (payload : List UInt8) (wide narrow : Nat) : Outcome Nat :=
  if large then readU64Le payload wide else readU32Le payload narrow

/-- A hash of a file or a part. -/
abbrev Hash16 := { bytes : List UInt8 // bytes.length = 16 }

/-- A slice as an array of 16 bytes. -/
def toHash16 (slice : List UInt8) : Option Hash16 :=
  if h : slice.length = 16 then some ⟨slice, h⟩ else none

/-- `proto.rs:140–144`. -/
def readHash16 (buf : List UInt8) (off : Nat) : Outcome Hash16 := do
  let stop ← addUsize off 16
  okOr ((getRange buf off stop).bind toHash16) "frame truncated (hash16)"

/-! ## Text -/

/-- The bounds of the second byte and the number of bytes after the first, by the first byte. -/
def leadByte (b : UInt8) : Option (UInt8 × UInt8 × Nat) :=
  if 0xC2 ≤ b && b ≤ 0xDF then some (0x80, 0xBF, 1)
  else if b = 0xE0 then some (0xA0, 0xBF, 2)
  else if b = 0xED then some (0x80, 0x9F, 2)
  else if 0xE1 ≤ b && b ≤ 0xEF then some (0x80, 0xBF, 2)
  else if b = 0xF0 then some (0x90, 0xBF, 3)
  else if 0xF1 ≤ b && b ≤ 0xF3 then some (0x80, 0xBF, 3)
  else if b = 0xF4 then some (0x80, 0x8F, 3)
  else none

/-- The bytes that continue a character, the first of them within bounds. -/
def continuation (low high : UInt8) : Nat → List UInt8 → List UInt8
  | 0, _ => []
  | _, [] => []
  | count + 1, b :: rest =>
    if low ≤ b && b ≤ high then b :: continuation 0x80 0xBF count rest else []

/-- The characters of at most so many sequences; a sequence that breaks off is replaced. -/
def lossyChars : Nat → List UInt8 → List Char
  | 0, _ => []
  | _, [] => []
  | fuel + 1, b :: rest =>
    if b < 0x80 then Char.ofNat b.toNat :: lossyChars fuel rest
    else match leadByte b with
      | none => '\uFFFD' :: lossyChars fuel rest
      | some (low, high, count) =>
        let tail := continuation low high count rest
        let value := tail.foldl (fun n c ↦ n * 64 + c.toNat % 64) (b.toNat % 2 ^ (6 - count))
        let char := if tail.length = count then Char.ofNat value else '\uFFFD'
        char :: lossyChars fuel (rest.drop tail.length)

/-- `String::from_utf8_lossy`. -/
def fromUtf8Lossy (bytes : List UInt8) : String := String.ofList (lossyChars bytes.length bytes)

example : lossyChars 7 [0x61, 0xC3, 0xA9, 0xE2, 0x82, 0x62, 0xFF] =
    ['a', 'é', '\uFFFD', 'b', '\uFFFD'] := by
  decide

/-! ## Frames -/

/-- The buffer of the decoder. `proto.rs:161`. -/
def inflateBuffer : Nat := 8192

/-- Join the reads of the decoder up to a bound: the bytes, and how far the output grew.
`proto.rs:159–178`. -/
def inflateLoop (maxOutput : Nat) : List (Arrival UInt8) → List UInt8 → Outcome (List UInt8) × Nat
  | [], out => (.ok out, out.length)
  | .failed text :: _, out => (fail s!"zlib decode error: {text}", out.length)
  | .data bytes :: reads, out =>
    if bytes.isEmpty then (.ok out, out.length)
    else match addUsize out.length bytes.length with
      | .error e => (.error e, out.length)
      | .ok total =>
        if maxOutput < total then
          (fail s!"zlib output exceeds limit {maxOutput} (bomb?)", out.length)
        else if inflateBuffer < bytes.length then (.error .panicked, out.length)
        else inflateLoop maxOutput reads (out ++ bytes)

variable (zlib : List UInt8 → List (Arrival UInt8))

/-- Inflate up to a bound. -/
def decompressBounded (input : List UInt8) (maxOutput : Nat) : Outcome (List UInt8) × Nat :=
  inflateLoop maxOutput (zlib input) []

/-- A read of a frame: its result, the stream after it, and the lengths of the payload buffers. -/
structure FrameRead where
  result : Outcome (UInt8 × UInt8 × List UInt8)
  stream : List (Arrival UInt8)
  buffers : List Nat

/-- The protocol, the opcode and the length of the payload. `proto.rs:205–222`. -/
def checkHead (head : List UInt8) (maxPayloadLen : Nat) : Outcome (UInt8 × UInt8 × Nat) := do
  let proto ← byteAt head 0
  if proto ≠ protoEdonkey ∧ proto ≠ protoEmule ∧ proto ≠ protoPacked then
    fail s!"illegal proto byte 0x{hexByte proto}"
  else do
    let size ← [1, 2, 3, 4].mapM (byteAt head)
    if leNat size = 0 then fail "frame size 0 (missing opcode)"
    else do
      let payloadLen ← subU32 (leNat size) 1
      if maxPayloadLen < payloadLen then
        fail s!"frame payload len {payloadLen} exceeds max {maxPayloadLen}"
      else do
        let opcode ← byteAt head 5
        .ok (proto, opcode, payloadLen)

/-- Read a frame. `proto.rs:196–235`. -/
def readFrame (stream : List (Arrival UInt8)) (maxPayloadLen : Nat) : FrameRead :=
  match readExact 6 stream with
  | (none, stream) => ⟨.error (.error .io), stream, []⟩
  | (some head, stream) => match checkHead head maxPayloadLen with
    | .error e => ⟨.error e, stream, []⟩
    | .ok (proto, opcode, payloadLen) => match readExact payloadLen stream with
      | (none, stream) => ⟨.error (.error .io), stream, [payloadLen]⟩
      | (some payload, stream) =>
        if proto = protoPacked then
          let (result, grown) := decompressBounded zlib payload maxPayloadLen
          ⟨result.map fun data ↦ (protoEdonkey, opcode, data), stream, [payloadLen, grown]⟩
        else ⟨.ok (proto, opcode, payload), stream, [payloadLen]⟩

/-- A frame as bytes. Sums of 32 bits wrap, as they do in a release. `proto.rs:547–555`. -/
def frameWithProto (proto opcode : UInt8) (payload : List UInt8) : List UInt8 :=
  let size := (payload.length % 2 ^ 32 + 1) % 2 ^ 32
  [proto] ++ leBytes 4 size ++ [opcode] ++ payload

/-- `proto.rs:541–543`. -/
def frame (opcode : UInt8) (payload : List UInt8) : List UInt8 :=
  frameWithProto protoEdonkey opcode payload

/-! ## Requests for parts -/

def opRequestparts : UInt8 := 0x47
def opRequestpartsI64 : UInt8 := 0xA3

/-- Up to three ranges of a file. `proto.rs:249–253`. -/
structure RequestParts where
  fileHash : Hash16
  ranges : Fin 3 → Option PartRange
  largeFile : Bool

namespace RequestParts

/-- The bytes of an offset. -/
def offsetLen (largeFile : Bool) : Nat := if largeFile then 8 else 4

/-- The bytes of three offsets. -/
def offsetBytes (largeFile : Bool) (values : Fin 3 → Nat) : List UInt8 :=
  (List.finRange 3).flatMap fun i ↦ leBytes (offsetLen largeFile) (values i)

/-- An empty slot starts at zero. -/
def starts (r : RequestParts) (i : Fin 3) : Nat := (r.ranges i).elim 0 PartRange.start

/-- An empty slot ends at zero. -/
def ends (r : RequestParts) (i : Fin 3) : Nat := (r.ranges i).elim 0 PartRange.endExclusive

/-- The opcode and the payload. `proto.rs:258–280`. -/
def encode (r : RequestParts) : UInt8 × List UInt8 :=
  (if r.largeFile then opRequestpartsI64 else opRequestparts,
    r.fileHash.val ++ offsetBytes r.largeFile r.starts ++ offsetBytes r.largeFile r.ends)

/-- Three offsets from a place on. `proto.rs:288–304`. -/
def readOffsets (payload : List UInt8) (largeFile : Bool) (base : Nat) :
    Outcome (Fin 3 → Nat) := do
  let read (off : Nat) := readOffset largeFile payload off off
  let a ← read base
  let b ← read (base + offsetLen largeFile)
  let c ← read (base + 2 * offsetLen largeFile)
  .ok ![a, b, c]

/-- A range, or an empty slot. `proto.rs:305–314`. -/
def slot (start endExclusive : Nat) : Option PartRange :=
  if start = 0 ∧ endExclusive = 0 then none else some ⟨start, endExclusive⟩

/-- Decode a payload. `proto.rs:286–320`. -/
def decode (payload : List UInt8) (largeFile : Bool) : Outcome RequestParts := do
  let fileHash ← readHash16 payload 0
  let starts ← readOffsets payload largeFile 16
  let ends ← readOffsets payload largeFile (16 + 3 * offsetLen largeFile)
  .ok ⟨fileHash, fun i ↦ slot (starts i) (ends i), largeFile⟩

/-- What is sent for the ranges in flight. `src/native/engine/src/ed2k/peer.rs:519–533`. -/
def ofInflight (fileHash : Hash16) (inflight : List PartRange) (largeFile : Bool) : RequestParts :=
  ⟨fileHash, fun i ↦ (inflight.take 3)[i.val]?, largeFile⟩

end RequestParts

/-! ## Messages that come in -/

/-- `proto.rs:330–375`. -/
inductive Ed2kMessage where
  | idChange (clientId : Nat)
  | reject
  | serverMessage (text : String)
  | serverStatus
  | foundSources (fileHash : Hash16) (sources : List (Nat × Nat))
  | helloAnswer (userHash : Hash16)
  | fileStatus (fileHash : Hash16) (bitfield : List UInt8)
  | noFile (fileHash : Hash16)
  | hashSetAnswer (partHashes : List Hash16)
  | sendingPart (fileHash : Hash16) (start endExclusive : Nat) (data : List UInt8)
  | compressedPart (fileHash : Hash16) (start : Nat) (packed : List UInt8)
  | queueRank (rank : Nat)
  | outOfPartReqs
  | unknown (opcode : UInt8)

/-- `proto.rs:402–409`. -/
def decodeServerMessage (payload : List UInt8) : Outcome Ed2kMessage := do
  let len ← readU16Le payload 0
  let stop ← addUsize 2 len
  let text ← okOr ((getRange payload 2 stop).map fromUtf8Lossy) "servermessage truncated"
  .ok (.serverMessage text)

/-- One source. `proto.rs:425–430`. -/
def readSource (payload : List UInt8) (i : Nat) : Outcome (Nat × Nat) := do
  let off ← mulUsize i 6
  let off ← addUsize 17 off
  let id ← readU32Le payload off
  let portOff ← addUsize off 4
  let port ← readU16Le payload portOff
  .ok (id, port)

/-- `proto.rs:410–433`. -/
def decodeFoundSources (payload : List UInt8) : Outcome Ed2kMessage := do
  let fileHash ← readHash16 payload 0
  let count ← okOr payload[16]? "foundsources missing count"
  let count := count.toNat
  let expected ← mulUsize count 6
  let expected ← addUsize (16 + 1) expected
  if payload.length < expected then
    fail s!"foundsources declares {count} sources but payload only {payload.length} bytes"
  else do
    let sources ← (List.range count).mapM (readSource payload)
    .ok (.foundSources fileHash sources)

/-- `proto.rs:438–451`. -/
def decodeFileStatus (payload : List UInt8) : Outcome Ed2kMessage := do
  let fileHash ← readHash16 payload 0
  let partCount ← readU16Le payload 16
  let nbytes := (partCount + 7) / 8
  let stop ← addUsize 18 nbytes
  let bitfield ← okOr (getRange payload 18 stop) "filestatus bitfield truncated"
  .ok (.fileStatus fileHash bitfield)

/-- One hash. `proto.rs:467–469`. -/
def readPartHash (payload : List UInt8) (i : Nat) : Outcome Hash16 := do
  let off ← mulUsize i 16
  let off ← addUsize 18 off
  readHash16 payload off

/-- `proto.rs:456–471`. -/
def decodeHashSetAnswer (payload : List UInt8) : Outcome Ed2kMessage := do
  let count ← readU16Le payload 16
  let expected ← mulUsize count 16
  let expected ← addUsize 18 expected
  if payload.length < expected then
    fail s!"hashsetanswer declares {count} hashes but payload only {payload.length} bytes"
  else do
    let partHashes ← (List.range count).mapM (readPartHash payload)
    .ok (.hashSetAnswer partHashes)

/-- `proto.rs:493–514`. -/
def decodeSendingPart (payload : List UInt8) (large : Bool) : Outcome Ed2kMessage := do
  let fileHash ← readHash16 payload 0
  let start ← readOffset large payload 16 16
  let endExclusive ← readOffset large payload 24 20
  let dataOff := if large then 32 else 24
  let data ← okOr (getFrom payload dataOff) "sendingpart data truncated"
  .ok (.sendingPart fileHash start endExclusive data)

/-- `proto.rs:516–533`. -/
def decodeCompressedPart (payload : List UInt8) (large : Bool) : Outcome Ed2kMessage := do
  let fileHash ← readHash16 payload 0
  let start ← readOffset large payload 16 16
  let packedOff := if large then 28 else 24
  let packed ← okOr (getFrom payload packedOff) "compressedpart data truncated"
  .ok (.compressedPart fileHash start packed)

/-- `proto.rs:479–491`. -/
def dispatchEmule (opcode : UInt8) (payload : List UInt8) : Outcome Ed2kMessage :=
  if opcode = 0x40 then decodeCompressedPart payload false
  else if opcode = 0xA1 then decodeCompressedPart payload true
  else if opcode = 0xA2 then decodeSendingPart payload true
  else if opcode = 0x60 then .queueRank <$> readU32Le payload 0
  else .ok (.unknown opcode)

/-- What a frame says. The size of the file is not looked at. `proto.rs:385–477`. -/
def dispatch (proto opcode : UInt8) (payload : List UInt8) (_largeFile : Bool) :
    Outcome Ed2kMessage :=
  if proto = protoEmule then dispatchEmule opcode payload
  else if opcode = 0x40 then .idChange <$> readU32Le payload 0
  else if opcode = 0x05 then .ok .reject
  else if opcode = 0x34 then .ok .serverStatus
  else if opcode = 0x38 then decodeServerMessage payload
  else if opcode = 0x42 then decodeFoundSources payload
  else if opcode = 0x4C then .helloAnswer <$> readHash16 payload 0
  else if opcode = 0x50 then decodeFileStatus payload
  else if opcode = 0x48 then .noFile <$> readHash16 payload 0
  else if opcode = 0x52 then decodeHashSetAnswer payload
  else if opcode = 0x46 then decodeSendingPart payload false
  else if opcode = 0x5C then .queueRank <$> readU32Le payload 0
  else if opcode = 0x57 then .ok .outOfPartReqs
  else .ok (.unknown opcode)

end Ed2k.Wire
