import FluxDown.Base.Saturating

/-!
# Chunks and their hashes

Library `Share`. A shared file is cut into chunks of four megabytes, and the manifest has the hash
of each of them. The hash function comes from another package and is a parameter.
-/

namespace Share

open Base

/-- A digest of 32 bytes. -/
abbrev Hash := Vector UInt8 32

/-- Length of a chunk (`src/native/share/src/hashing.rs:19–20`). -/
def chunkSize : Nat := 4 * 1024 * 1024

/-- The value of a hexadecimal digit in either case. -/
def hexValue (c : Char) : Option Nat :=
  if '0' ≤ c ∧ c ≤ '9' then some (c.toNat - 48)
  else if 'a' ≤ c ∧ c ≤ 'f' then some (c.toNat - 87)
  else if 'A' ≤ c ∧ c ≤ 'F' then some (c.toNat - 55)
  else none

/-- The bytes of hexadecimal digits. -/
def decodeHex : List Char → Option (List UInt8)
  | [] => some []
  | [_] => none
  | high :: low :: digits => do
    let h ← hexValue high
    let l ← hexValue low
    let bytes ← decodeHex digits
    some (UInt8.ofNat (16 * h + l) :: bytes)

/-- A hash of 64 hexadecimal digits (`hashing.rs:61–67`). -/
def parseHash (hex : String) : Option Hash :=
  (decodeHex hex.toList).bind fun bytes ↦
    if h : bytes.length = 32 then some ⟨bytes.toArray, by simpa using h⟩ else none

/-- A file of a share (`src/native/share/src/types.rs:156–167`); its name and time are left out. -/
structure ShareFile where
  size : Nat
  chunkHashes : List String
  rootHash : String
deriving DecidableEq

namespace ShareFile

/-- The number of chunks (`types.rs:171–173`). -/
def chunkCount (file : ShareFile) : Nat :=
  if 0 < file.size % chunkSize then file.size / chunkSize + 1 else file.size / chunkSize

/-- Where a chunk begins and ends (`types.rs:176–183`). -/
def chunkRange (file : ShareFile) (index : Nat) : Option (Nat × Nat) :=
  if file.chunkCount ≤ index then none
  else if maxU64 < index * chunkSize then none
  else some (index * chunkSize, min (min (index * chunkSize + chunkSize) maxU64) file.size)

/-- The hash of a chunk (`types.rs:186–189`). -/
def chunkHash (file : ShareFile) (index : Nat) : Option Hash :=
  file.chunkHashes[index]?.bind parseHash

end ShareFile

/-- Why a chunk was not accepted (`hashing.rs:33–55`). -/
inductive ChunkError where
  | outOfRange (index : Nat)
  | missingHash (index : Nat)
  | badLength (index expected got : Nat)
  | hashMismatch (index : Nat)
deriving DecidableEq

/-- Check the length and the hash of a chunk (`hashing.rs:97–118`). -/
def verifyChunk (blake3 : List UInt8 → Hash) (file : ShareFile) (index : Nat)
    (data : List UInt8) : Except ChunkError Unit :=
  match file.chunkRange index with
  | none => .error (.outOfRange index)
  | some (start, stop) =>
    if data.length ≠ stop - start then .error (.badLength index (stop - start) data.length)
    else match file.chunkHash index with
      | none => .error (.missingHash index)
      | some want => if blake3 data = want then .ok () else .error (.hashMismatch index)

/-! ## Sets of chunks -/

/-- The chunks of a file that are held (`src/native/share/src/swarm/chunkset.rs:5–13`). -/
structure ChunkSet where
  len : Nat
  bits : Nat → Bool

namespace ChunkSet

/-- No chunk (`chunkset.rs:16–34`). -/
def new (len : Nat) : ChunkSet := ⟨len, fun _ ↦ false⟩

/-- A chunk is held (`chunkset.rs:59–63`). -/
def contains (set : ChunkSet) (index : Nat) : Bool := decide (index < set.len) && set.bits index

/-- Hold a chunk; whether it was not held before (`chunkset.rs:65–75`). -/
def insert (set : ChunkSet) (index : Nat) : ChunkSet × Bool :=
  if index < set.len then ({ set with bits := Function.update set.bits index true }, !set.bits index)
  else (set, false)

/-- Hold a chunk no more; whether it was held before (`chunkset.rs:77–87`). -/
def remove (set : ChunkSet) (index : Nat) : ChunkSet × Bool :=
  if index < set.len then ({ set with bits := Function.update set.bits index false }, set.bits index)
  else (set, false)

/-- The bits in bytes, the lowest bit first (`chunkset.rs:89–98`). -/
def toBytes (set : ChunkSet) : List UInt8 :=
  (List.range ((set.len + 7) / 8)).map fun byte ↦ UInt8.ofNat
    ((List.range 8).map fun bit ↦ (set.bits (8 * byte + bit)).toNat * 2 ^ bit).sum

/-- A number is in the set after it was inserted, if it is one of a chunk. -/
theorem contains_insert (set : ChunkSet) (index other : Nat) :
    (set.insert index).1.contains other =
      (set.contains other || (decide (other = index) && decide (index < set.len))) := by
  unfold insert contains
  split
  · next h =>
    simp only [Function.update_apply]
    by_cases hsame : other = index
    · simp [hsame, h]
    · simp [hsame]
  · next h => simp [h]

end ChunkSet

end Share
