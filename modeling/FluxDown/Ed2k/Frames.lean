import FluxDown.Base.Saturating
import FluxDown.Ed2k.Peer

/-!
# Frames from a peer

Library `Ed2k`. A frame has a protocol byte, an opcode and a payload; packed frames are inflated
as a whole. Numbers are little-endian. Of the messages that the request loop skips only the checks
are kept, since a frame that fails one ends the download.
-/

namespace Ed2k

open Base

/-- `src/native/engine/src/ed2k/proto.rs:24`. -/
def protoEdonkey : UInt8 := 0xE3

/-- `proto.rs:26`. -/
def protoEmule : UInt8 := 0xC5

/-- `proto.rs:28`. -/
def protoPacked : UInt8 := 0xD4

/-- A frame as it is read, with a size that counts the opcode and the payload. -/
structure Frame where
  proto : UInt8
  opcode : UInt8
  payload : List UInt8
deriving DecidableEq

section Numbers

/-- The number with these bytes, the lowest first. -/
def leNat : List UInt8 → Nat
  | [] => 0
  | byte :: rest => byte.toNat + 256 * leNat rest

/-- Bytes are a number below the power of 256. -/
theorem leNat_lt (bytes : List UInt8) : leNat bytes < 256 ^ bytes.length := by
  induction bytes with
  | nil => simp [leNat]
  | cons byte rest ih =>
    have hbyte := byte.toNat_lt
    simp only [leNat, List.length_cons, Nat.pow_succ]
    omega

/-- Read a number of so many bytes. -/
def readLe (width : Nat) (name : String) (buf : List UInt8) (off : Nat) :
    Except DownloadError Nat :=
  if off + width ≤ buf.length then .ok (leNat ((buf.drop off).take width))
  else .error (.ed2k s!"frame truncated ({name})")

/-- `proto.rs:122–126`. -/
def readU16Le : List UInt8 → Nat → Except DownloadError Nat := readLe 2 "u16"

/-- `proto.rs:128–132`. -/
def readU32Le : List UInt8 → Nat → Except DownloadError Nat := readLe 4 "u32"

/-- `proto.rs:134–138`. -/
def readU64Le : List UInt8 → Nat → Except DownloadError Nat := readLe 8 "u64"

/-- `proto.rs:140–144`. -/
def readHash16 (buf : List UInt8) (off : Nat) : Except DownloadError Md4 :=
  if off + 16 ≤ buf.length then .ok ((buf.drop off).take 16)
  else .error (.ed2k "frame truncated (hash16)")

end Numbers

section Decode

/-- An offset, which has eight bytes in the large form. -/
def readOffset (large : Bool) (payload : List UInt8) (wide narrow : Nat) :
    Except DownloadError Nat :=
  if large then readU64Le payload wide else readU32Le payload narrow

/-- A part with its range.
`proto.rs:493–514`. -/
def decodeSendingPart (payload : List UInt8) (large : Bool) : Except DownloadError Ed2kMessage := do
  let _ ← readHash16 payload 0
  let start ← readOffset large payload 16 16
  let endExclusive ← readOffset large payload 24 20
  let dataOff := if large then 32 else 24
  if payload.length < dataOff then .error (.ed2k "sendingpart data truncated")
  else .ok (.sendingPart start endExclusive (payload.drop dataOff))

/-- A packed part with its start. `proto.rs:516–533`. -/
def decodeCompressedPart (payload : List UInt8) (large : Bool) :
    Except DownloadError Ed2kMessage := do
  let _ ← readHash16 payload 0
  let start ← readOffset large payload 16 16
  let packedOff := if large then 28 else 24
  if payload.length < packedOff then .error (.ed2k "compressedpart data truncated")
  else .ok (.compressedPart start (payload.drop packedOff))

/-- eMule's extensions. `proto.rs:479–491`. -/
def decodeEmule (opcode : UInt8) (payload : List UInt8) : Except DownloadError Ed2kMessage :=
  if opcode = 0x40 then decodeCompressedPart payload false
  else if opcode = 0xA1 then decodeCompressedPart payload true
  else if opcode = 0xA2 then decodeSendingPart payload true
  else if opcode = 0x60 then .queueRank <$> readU32Le payload 0
  else .ok .other

/-- A list of sources whose count fits the payload. `proto.rs:410–432`. -/
def decodeFoundSources (payload : List UInt8) : Except DownloadError Ed2kMessage := do
  let _ ← readHash16 payload 0
  match payload[16]? with
  | none => .error (.ed2k "foundsources missing count")
  | some count =>
    if payload.length < 16 + 1 + count.toNat * 6 then
      .error (.ed2k s!"foundsources declares {count.toNat} sources but payload only {payload.length} bytes")
    else .ok .other

/-- The parts a peer has. `proto.rs:438–451`. -/
def decodeFileStatus (payload : List UInt8) : Except DownloadError Ed2kMessage := do
  let _ ← readHash16 payload 0
  let partCount ← readU16Le payload 16
  if payload.length < 18 + (partCount + 7) / 8 then
    .error (.ed2k "filestatus bitfield truncated")
  else .ok .other

/-- A hashset whose count fits the payload. `proto.rs:456–471`. -/
def decodeHashsetAnswer (payload : List UInt8) : Except DownloadError Ed2kMessage := do
  let count ← readU16Le payload 16
  if payload.length < 18 + count * 16 then
    .error (.ed2k s!"hashsetanswer declares {count} hashes but payload only {payload.length} bytes")
  else .ok .other

/-- A text of a server. `proto.rs:402–409`. -/
def decodeServerMessage (payload : List UInt8) : Except DownloadError Ed2kMessage := do
  let len ← readU16Le payload 0
  if payload.length < 2 + len then .error (.ed2k "servermessage truncated") else .ok .other

/-- What a frame says. `proto.rs:385–477`. -/
def decode (proto opcode : UInt8) (payload : List UInt8) : Except DownloadError Ed2kMessage :=
  if proto = protoEmule then decodeEmule opcode payload
  else if opcode = 0x40 then (fun _ ↦ .other) <$> readU32Le payload 0
  else if opcode = 0x38 then decodeServerMessage payload
  else if opcode = 0x42 then decodeFoundSources payload
  else if opcode = 0x4C then (fun _ ↦ .other) <$> readHash16 payload 0
  else if opcode = 0x50 then decodeFileStatus payload
  else if opcode = 0x48 then (fun _ ↦ .noFile) <$> readHash16 payload 0
  else if opcode = 0x52 then decodeHashsetAnswer payload
  else if opcode = 0x46 then decodeSendingPart payload false
  else if opcode = 0x5C then .queueRank <$> readU32Le payload 0
  else if opcode = 0x57 then .ok .outOfPartReqs
  else .ok .other

/-- Two hexadecimal digits. -/
def hexByte (byte : UInt8) : String :=
  String.ofList [Nat.digitChar (byte.toNat / 16), Nat.digitChar (byte.toNat % 16)]

/-- Read a frame up to a bound and inflate it if it is packed. `proto.rs:196–235`. -/
def Frame.unpack (job : BlockJob) (frame : Frame) : Except DownloadError Frame :=
  if frame.proto ≠ protoEdonkey ∧ frame.proto ≠ protoEmule ∧ frame.proto ≠ protoPacked then
    .error (.ed2k s!"illegal proto byte 0x{hexByte frame.proto}")
  else if maxPeerFrame < frame.payload.length then
    .error (.ed2k s!"frame payload len {frame.payload.length} exceeds max {maxPeerFrame}")
  else if frame.proto = protoPacked then do
    let payload ← BlockDownload.decompressBounded job frame.payload maxPeerFrame
    .ok ⟨protoEdonkey, frame.opcode, payload⟩
  else .ok frame

/-- Read a frame and decode it. `src/native/engine/src/ed2k/peer.rs:253–264`. -/
def Frame.message (job : BlockJob) (frame : Frame) : Except DownloadError Ed2kMessage := do
  let frame ← frame.unpack job
  decode frame.proto frame.opcode frame.payload

end Decode

end Ed2k
