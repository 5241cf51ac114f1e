import Mathlib

/-!
# Percent coding

Library `Base`. Bytes are written as characters, those that are not safe as a percent sign and two
digits. Reading takes any text and is strict about nothing, so that text that was not written this
way stays as it is; what was written is read back.
-/

namespace Base

/-- The bytes of a text in UTF-8. -/
def utf8Bytes (text : List Char) : List UInt8 := text.flatMap String.utf8EncodeChar

/-- The text of bytes in UTF-8. -/
def fromUtf8 (bytes : List UInt8) : Option (List Char) :=
  (String.fromUTF8? bytes.toByteArray).map String.toList

/-- The value of a digit in base sixteen. -/
def hexValue (b : UInt8) : Option Nat :=
  if 48 ≤ b.toNat ∧ b.toNat ≤ 57 then some (b.toNat - 48)
  else if 97 ≤ b.toNat ∧ b.toNat ≤ 102 then some (b.toNat - 97 + 10)
  else if 65 ≤ b.toNat ∧ b.toNat ≤ 70 then some (b.toNat - 65 + 10)
  else none

/-- The digits of base sixteen. -/
def hexDigits : List Char := "0123456789ABCDEF".toList

/-- The digit of a value. -/
def hexDigit (n : Nat) : Char := hexDigits.getD n '0'

/-- Write bytes. -/
def percentEncodeBytes (safe : UInt8 → Bool) (bytes : List UInt8) : List Char :=
  bytes.flatMap fun b ↦
    if safe b then [Char.ofNat b.toNat]
    else ['%', hexDigit (b.toNat / 16), hexDigit (b.toNat % 16)]

/-- Read bytes. -/
def percentDecodeBytes : List UInt8 → List UInt8
  | percent :: high :: low :: rest =>
    if percent.toNat = 37 then
      match hexValue high, hexValue low with
      | some h, some l => UInt8.ofNat (h * 16 + l) :: percentDecodeBytes rest
      | _, _ => percent :: percentDecodeBytes (high :: low :: rest)
    else percent :: percentDecodeBytes (high :: low :: rest)
  | b :: rest => b :: percentDecodeBytes rest
  | [] => []

section Utf8

variable {text text' : List Char}

/-- Texts are encoded one after the other. -/
@[simp] theorem utf8Bytes_append : utf8Bytes (text ++ text') = utf8Bytes text ++ utf8Bytes text' :=
  List.flatMap_append

/-- An ASCII character is one byte. -/
theorem utf8EncodeChar_of_ascii {c : Char} (h : c.toNat < 128) :
    String.utf8EncodeChar c = [UInt8.ofNat c.toNat] := by
  have hle : c.val.toNat ≤ 127 := Nat.le_of_lt_succ h
  unfold String.utf8EncodeChar
  exact if_pos hle

/-- Texts are read back from their bytes. -/
theorem fromUtf8_utf8Bytes (text : List Char) : fromUtf8 (utf8Bytes text) = some text := by
  have hbytes : (utf8Bytes text).toByteArray = text.utf8Encode := rfl
  rw [fromUtf8, hbytes, String.fromUTF8?, dif_pos ByteArray.isValidUTF8_utf8Encode, Option.map_some]
  exact congrArg some String.toList_ofList

end Utf8

section Percent

variable {safe : UInt8 → Bool}

private theorem toNat_ofNat_of_ascii : ∀ n < 128, (Char.ofNat n).toNat = n := by decide

private theorem toNat_hexDigit : ∀ n < 16, (hexDigit n).toNat < 128 := by decide

private theorem hexValue_hexDigit :
    ∀ n < 16, hexValue (UInt8.ofNat (hexDigit n).toNat) = some n := by
  decide

private theorem hexDigit_mem : ∀ n < 16, hexDigit n ∈ hexDigits := by decide

private theorem percentDecodeBytes_cons_of_ne {b : UInt8} (h : b.toNat ≠ 37) (rest : List UInt8) :
    percentDecodeBytes (b :: rest) = b :: percentDecodeBytes rest := by
  rcases rest with - | ⟨high, - | ⟨low, rest⟩⟩
  · rfl
  · rfl
  · rw [percentDecodeBytes, if_neg h]

/-- What was written is read back. -/
theorem percentDecodeBytes_percentEncodeBytes (hsafe : ∀ b, safe b = true → b.toNat < 128 ∧ b.toNat ≠ 37)
    (bytes : List UInt8) : percentDecodeBytes (utf8Bytes (percentEncodeBytes safe bytes)) = bytes := by
  induction bytes with
  | nil => rfl
  | cons b bytes ih =>
    have hcons : percentEncodeBytes safe (b :: bytes) =
        (if safe b then [Char.ofNat b.toNat]
          else ['%', hexDigit (b.toNat / 16), hexDigit (b.toNat % 16)]) ++
          percentEncodeBytes safe bytes := rfl
    rw [hcons, utf8Bytes_append]
    split
    · next hb =>
      obtain ⟨hascii, hpercent⟩ := hsafe b hb
      have hchar := toNat_ofNat_of_ascii _ hascii
      have hbytes : utf8Bytes [Char.ofNat b.toNat] = [b] := by
        rw [utf8Bytes, List.flatMap_singleton, utf8EncodeChar_of_ascii (by omega), hchar,
          UInt8.ofNat_toNat]
      rw [hbytes, List.singleton_append, percentDecodeBytes_cons_of_ne hpercent, ih]
    · have hlt := b.toNat_lt
      have hhigh : b.toNat / 16 < 16 := by omega
      have hlow : b.toNat % 16 < 16 := by omega
      have hbytes : utf8Bytes ['%', hexDigit (b.toNat / 16), hexDigit (b.toNat % 16)] =
          [37, UInt8.ofNat (hexDigit (b.toNat / 16)).toNat,
            UInt8.ofNat (hexDigit (b.toNat % 16)).toNat] := by
        simp only [utf8Bytes, List.flatMap_cons, List.flatMap_nil]
        rw [utf8EncodeChar_of_ascii (toNat_hexDigit _ hhigh),
          utf8EncodeChar_of_ascii (toNat_hexDigit _ hlow), utf8EncodeChar_of_ascii (by decide)]
        rfl
      rw [hbytes, List.cons_append, List.cons_append, List.cons_append, List.nil_append,
        percentDecodeBytes, if_pos (by decide), hexValue_hexDigit _ hhigh, hexValue_hexDigit _ hlow]
      dsimp only
      rw [ih, Nat.div_add_mod', UInt8.ofNat_toNat]

/-- Only safe characters, percent signs and digits are written. -/
theorem mem_percentEncodeBytes {bytes : List UInt8} {c : Char} (h : c ∈ percentEncodeBytes safe bytes) :
    (∃ b, safe b = true ∧ c = Char.ofNat b.toNat) ∨ c = '%' ∨ c ∈ hexDigits := by
  obtain ⟨b, -, hb⟩ := List.mem_flatMap.mp h
  have hlt := b.toNat_lt
  split at hb
  · next hsafe => exact .inl ⟨b, hsafe, List.mem_singleton.mp hb⟩
  · simp only [List.mem_cons, List.not_mem_nil, or_false] at hb
    rcases hb with rfl | rfl | rfl
    · exact .inr (.inl rfl)
    · exact .inr (.inr (hexDigit_mem _ (by omega)))
    · exact .inr (.inr (hexDigit_mem _ (by omega)))

end Percent

end Base
