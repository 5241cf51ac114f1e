import Mathlib

/-!
# Saturating and checked arithmetic

Library `Base`. Operations on machine integers that stop at the ends of their type, and operations
that have no result where they would leave it.
-/

namespace Base

/-- The largest number of 32 bits. -/
def maxU32 : Nat := 2 ^ 32 - 1

/-- The largest number of 64 bits. -/
def maxU64 : Nat := 2 ^ 64 - 1

/-- The nearest signed number of 64 bits. -/
def clampI64 (n : Int) : Int := max (-2 ^ 63) (min n (2 ^ 63 - 1))

/-- Signed addition that stops at the ends. -/
def saturatingAdd (a b : Int) : Int := clampI64 (a + b)

/-- Signed subtraction that stops at the ends. -/
def saturatingSub (a b : Int) : Int := clampI64 (a - b)

/-- Addition of 64 bits, without a result on overflow. -/
def checkedAdd (a b : Nat) : Option Nat := if a + b ≤ maxU64 then some (a + b) else none

/-- Multiplication of 64 bits, without a result on overflow. -/
def checkedMul (a b : Nat) : Option Nat := if a * b ≤ maxU64 then some (a * b) else none

/-- Subtraction of 64 bits, without a result on overflow. -/
def checkedSub (a b : Nat) : Option Nat := if b ≤ a then some (a - b) else none

/-- A sum that fits is the sum. -/
theorem checkedAdd_of_le {a b : Nat} (h : a + b ≤ maxU64) : checkedAdd a b = some (a + b) :=
  if_pos h

/-- A sum that does not fit is none. -/
theorem checkedAdd_of_lt {a b : Nat} (h : maxU64 < a + b) : checkedAdd a b = none :=
  if_neg (Nat.not_le_of_lt h)

/-- A checked sum is the sum. -/
theorem eq_of_checkedAdd {a b c : Nat} (h : checkedAdd a b = some c) : c = a + b := by
  unfold checkedAdd at h
  split at h
  · exact (Option.some.inj h).symm
  · cases h

/-- A product that fits is the product. -/
theorem checkedMul_of_le {a b : Nat} (h : a * b ≤ maxU64) : checkedMul a b = some (a * b) :=
  if_pos h

/-- A difference that is not negative is the difference. -/
theorem checkedSub_of_le {a b : Nat} (h : b ≤ a) : checkedSub a b = some (a - b) := if_pos h

end Base
