import FluxDown.Base.Saturating

/-!
# Parts of an eD2K file

Library `Ed2k`. A file is cut into parts of a fixed size, each with its MD4; the root is the
MD4 of the only part or of all of them. A file whose size is a multiple of the part size counts
an empty part at its end for the root. MD4 is a parameter.
-/

namespace Ed2k

open Base

/-- `src/native/engine/src/ed2k/hash.rs:22`. -/
def blockSize : Nat := 184320

/-- An MD4 digest. -/
abbrev Md4 := List UInt8

/-- `hash.rs:28–30`. -/
def md4Empty : Md4 :=
  [0x31, 0xd6, 0xcf, 0xe0, 0xd1, 0x6a, 0xe9, 0x31, 0xb7, 0x3c, 0x59, 0xd7, 0xe0, 0xc0, 0x89, 0xc0]

/-- Parts of a file, without the empty one at its end. `hash.rs:55–61`. -/
def partCount (totalSize partSize : Nat) : Nat :=
  if totalSize = 0 then 1
  else if 0 < totalSize % partSize then totalSize / partSize + 1 else totalSize / partSize

/-- The half-open range of a part. `hash.rs:68–72`. -/
def partSpan (index totalSize partSize : Nat) : Nat × Nat :=
  let start := min (index * partSize) maxU64
  (min start totalSize, min (min (start + partSize) maxU64) totalSize)

/-- `hash.rs:85–87`. -/
def isPhantomTail (totalSize partSize : Nat) : Bool := totalSize > 0 && totalSize % partSize == 0

/-- `hash.rs:190–192`. -/
def isSingleBlock (totalSize partSize : Nat) : Bool := totalSize < partSize

/-- `hash.rs:125–134`. -/
def computeRoot (hashPart : List UInt8 → Md4) : List Md4 → Md4
  | [h] => h
  | hashes => hashPart hashes.flatten

/-- `hash.rs:151–157`. -/
def buildRootInput (netHashes : List Md4) (totalSize partSize : Nat) : List Md4 :=
  if isPhantomTail totalSize partSize then netHashes ++ [md4Empty] else netHashes

/-- A hashset that belongs to the root, without the empty part at its end. `hash.rs:204–226`. -/
def normalizeHashset (hashPart : List UInt8 → Md4) (netHashes : List Md4) (expectedRoot : Md4)
    (totalSize partSize : Nat) : Option (List Md4) :=
  let pc := partCount totalSize partSize
  let trimmed :=
    if netHashes.length = pc + 1 ∧ isPhantomTail totalSize partSize = true ∧
        netHashes[pc]? = some md4Empty then netHashes.take pc
    else netHashes
  if trimmed.length ≠ pc then none
  else if computeRoot hashPart (buildRootInput trimmed totalSize partSize) = expectedRoot then
    some trimmed
  else none

end Ed2k
