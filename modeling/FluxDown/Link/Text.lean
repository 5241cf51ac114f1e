import Mathlib

/-!
# Texts reported by peers

Library `Link`. Names, platforms and versions come from the network: control characters and
those that turn the direction of writing are removed, and the rest is trimmed and cut.
-/

namespace Link

/-- The most characters of a name (`src/native/link/src/text.rs:6–7`). -/
def maxNameChars : Nat := 64

/-- The most characters of a platform (`text.rs:8–9`). -/
def maxPlatformChars : Nat := 32

/-- The most characters of a version (`text.rs:10–11`). -/
def maxVersionChars : Nat := 64

/-- Unicode white space. -/
def isWhitespace (c : Char) : Bool :=
  c.toNat ∈ [0x20, 0x85, 0xA0, 0x1680, 0x2028, 0x2029, 0x202F, 0x205F, 0x3000] ||
    decide (0x09 ≤ c.toNat ∧ c.toNat ≤ 0x0D) || decide (0x2000 ≤ c.toNat ∧ c.toNat ≤ 0x200A)

/-- Unicode control characters. -/
def isControl (c : Char) : Bool :=
  decide (c.toNat ≤ 0x1F) || decide (0x7F ≤ c.toNat ∧ c.toNat ≤ 0x9F)

/-- Remove white space at both ends. -/
def trim (text : List Char) : List Char :=
  ((text.dropWhile isWhitespace).reverse.dropWhile isWhitespace).reverse

/-- Characters that turn the direction of writing (`text.rs:15–21`). -/
def isBidiControl (c : Char) : Bool :=
  c.toNat ∈ [0x061C, 0x200E, 0x200F] || decide (0x202A ≤ c.toNat ∧ c.toNat ≤ 0x202E) ||
    decide (0x2066 ≤ c.toNat ∧ c.toNat ≤ 0x2069)

/-- Characters that are not shown (`text.rs:23–27`). -/
def isUnsafeDisplayChar (c : Char) : Bool := isControl c || isBidiControl c

/-- Clean a text (`text.rs:29–39`). -/
def sanitizeText (raw : String) (maxChars : Nat) : String :=
  let cleaned := raw.toList.filter fun c ↦ !isUnsafeDisplayChar c
  String.ofList (trim ((trim cleaned).take maxChars))

/-- Clean a text that may be missing; an empty one counts as missing (`text.rs:41–46`). -/
def sanitizeOptional (raw : Option String) (maxChars : Nat) : Option String :=
  (raw.map fun text ↦ sanitizeText text maxChars).filter fun text ↦ !text.isEmpty

end Link
