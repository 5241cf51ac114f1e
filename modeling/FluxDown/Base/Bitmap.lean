import FluxDown.Base.Chunks

/-!
# Bits in bytes and in words

Library `Base`. A string of bits is kept in bytes or in words of 64 bits, the lowest bit of each
first. Words are written as bytes and read back; equal bits make equal bytes and equal words. The
bits that are set are counted word by word.
-/

namespace Base

/-- A bit of a string of bytes. -/
def bitAt (bytes : List UInt8) (i : Nat) : Bool := (bytes.getD (i / 8) 0).toBitVec.getLsbD (i % 8)

/-- A bit of a list of words. -/
def wordBitAt (words : List (BitVec 64)) (i : Nat) : Bool := (words.getD (i / 64) 0).getLsbD (i % 64)

/-- The bytes of a word, the lowest first. -/
def leBytes (word : BitVec 64) : List UInt8 :=
  (List.range 8).map fun k ↦ UInt8.ofBitVec (word.extractLsb' (8 * k) 8)

/-- The word of bytes, the lowest first. -/
def ofLeBytes : List UInt8 → BitVec 64
  | [] => 0#64
  | byte :: rest => ofLeBytes rest <<< 8 ||| byte.toBitVec.setWidth 64

/-- The number of bits set in a word. -/
def countOnes (word : BitVec 64) : Nat := (List.range 64).countP (word.getLsbD ·)

section Bytes

variable {bytes bytes' : List UInt8} {i : Nat}

/-- Behind the bytes every bit is clear. -/
theorem bitAt_of_ge (h : 8 * bytes.length ≤ i) : bitAt bytes i = false := by
  have hbyte : bytes.getD (i / 8) 0 = 0 := List.getD_eq_default _ _ (by omega)
  rw [bitAt, hbyte]
  simp

private theorem bitAt_append_left (h : i < 8 * bytes.length) :
    bitAt (bytes ++ bytes') i = bitAt bytes i := by
  unfold bitAt
  rw [List.getD_append _ _ _ _ (by omega)]

private theorem bitAt_append_right (h : 8 * bytes.length ≤ i) :
    bitAt (bytes ++ bytes') i = bitAt bytes' (i - 8 * bytes.length) := by
  unfold bitAt
  rw [List.getD_append_right _ _ _ _ (by omega),
    show (i - 8 * bytes.length) / 8 = i / 8 - bytes.length by omega,
    show (i - 8 * bytes.length) % 8 = i % 8 by omega]

/-- Zeros at the end add no bit. -/
theorem bitAt_append_zeros (n : Nat) : bitAt (bytes ++ List.replicate n 0) i = bitAt bytes i := by
  by_cases h : i < 8 * bytes.length
  · exact bitAt_append_left h
  · rw [bitAt_append_right (by omega), bitAt_of_ge (Nat.le_of_not_lt h)]
    unfold bitAt
    rw [List.getD_eq_getElem?_getD, List.getElem?_getD_replicate_default_eq]
    simp

/-- A bit in the first bytes is the one of all bytes. -/
theorem bitAt_take {n : Nat} (h : i < 8 * n) : bitAt (bytes.take n) i = bitAt bytes i := by
  unfold bitAt
  simp only [List.getD_eq_getElem?_getD]
  rw [List.getElem?_take_of_lt (by omega)]

private theorem bitAt_drop (n : Nat) : bitAt (bytes.drop n) i = bitAt bytes (8 * n + i) := by
  unfold bitAt
  simp only [List.getD_eq_getElem?_getD, List.getElem?_drop]
  rw [show (8 * n + i) / 8 = n + i / 8 by omega, show (8 * n + i) % 8 = i % 8 by omega]

/-- Strings of one length with the same bits are equal. -/
theorem bytes_ext (hlength : bytes.length = bytes'.length)
    (h : ∀ i < 8 * bytes.length, bitAt bytes i = bitAt bytes' i) : bytes = bytes' := by
  apply List.ext_getElem hlength
  intro k hk hk'
  apply UInt8.toBitVec_inj.mp
  apply BitVec.eq_of_getLsbD_eq
  intro b hb
  have hbit := h (8 * k + b) (by omega)
  unfold bitAt at hbit
  rw [show (8 * k + b) / 8 = k by omega, show (8 * k + b) % 8 = b by omega,
    List.getD_eq_getElem _ _ hk, List.getD_eq_getElem _ _ hk'] at hbit
  exact hbit

end Bytes

section Words

variable {words words' : List (BitVec 64)} {i : Nat}

/-- Behind the words every bit is clear. -/
theorem wordBitAt_of_ge (h : 64 * words.length ≤ i) : wordBitAt words i = false := by
  have hword : words.getD (i / 64) 0 = 0 := List.getD_eq_default _ _ (by omega)
  rw [wordBitAt, hword]
  simp

/-- Lists of words of one length with the same bits are equal. -/
theorem words_ext (hlength : words.length = words'.length)
    (h : ∀ i < 64 * words.length, wordBitAt words i = wordBitAt words' i) : words = words' := by
  apply List.ext_getElem hlength
  intro k hk hk'
  apply BitVec.eq_of_getLsbD_eq
  intro b hb
  have hbit := h (64 * k + b) (by omega)
  unfold wordBitAt at hbit
  rw [show (64 * k + b) / 64 = k by omega, show (64 * k + b) % 64 = b by omega,
    List.getD_eq_getElem _ _ hk, List.getD_eq_getElem _ _ hk'] at hbit
  exact hbit

/-- The bits of a list of words after one word is written. -/
theorem wordBitAt_set {k : Nat} (hk : k < words.length) (word : BitVec 64) :
    wordBitAt (words.set k word) i =
      if i / 64 = k then word.getLsbD (i % 64) else wordBitAt words i := by
  unfold wordBitAt
  simp only [List.getD_eq_getElem?_getD, List.getElem?_set]
  by_cases hsame : k = i / 64
  · rw [if_pos hsame, if_pos hk, if_pos hsame.symm, Option.getD_some]
  · rw [if_neg hsame, if_neg (Ne.symm hsame)]

end Words

/-! ## Words as bytes -/

/-- A word has eight bytes. -/
@[simp] theorem length_leBytes (word : BitVec 64) : (leBytes word).length = 8 := by
  simp [leBytes]

private theorem bitAt_leBytes (word : BitVec 64) {i : Nat} (h : i < 64) :
    bitAt (leBytes word) i = word.getLsbD i := by
  have hbyte : (leBytes word).getD (i / 8) 0 =
      UInt8.ofBitVec (word.extractLsb' (8 * (i / 8)) 8) := by
    rw [List.getD_eq_getElem _ _ (by rw [length_leBytes]; omega)]
    simp [leBytes]
  rw [bitAt, hbyte, UInt8.toBitVec_ofBitVec, BitVec.getLsbD_extractLsb',
    decide_eq_true (Nat.mod_lt i (by decide)), Bool.true_and, Nat.div_add_mod]

/-- The bit of a word is the one of its bytes. -/
theorem getLsbD_ofLeBytes {bytes : List UInt8} {i : Nat} (h : i < 64) :
    (ofLeBytes bytes).getLsbD i = bitAt bytes i := by
  induction bytes generalizing i with
  | nil => simp [ofLeBytes, bitAt]
  | cons byte rest ih =>
    rw [ofLeBytes, BitVec.getLsbD_or, BitVec.getLsbD_shiftLeft, BitVec.getLsbD_setWidth,
      decide_eq_true h]
    by_cases hfirst : i < 8
    · rw [show i = i % 8 by omega, bitAt, show i % 8 / 8 = 0 by omega]
      simp [show i % 8 < 8 by omega]
    · rw [ih (by omega), show byte :: rest = [byte] ++ rest from rfl,
        bitAt_append_right (by simp; omega), BitVec.getLsbD_of_ge byte.toBitVec i (by omega)]
      simp [hfirst]

/-- Words have eight bytes each. -/
theorem length_flatMap_leBytes (words : List (BitVec 64)) :
    (words.flatMap leBytes).length = 8 * words.length := by
  simp [List.length_flatMap, Nat.mul_comm]

/-- Written as bytes, the words have the same bits. -/
theorem bitAt_flatMap_leBytes (words : List (BitVec 64)) (i : Nat) :
    bitAt (words.flatMap leBytes) i = wordBitAt words i := by
  induction words generalizing i with
  | nil => rw [wordBitAt_of_ge (by simp), bitAt_of_ge (by simp)]
  | cons word words ih =>
    rw [List.flatMap_cons]
    by_cases hfirst : i < 64
    · rw [bitAt_append_left (by simpa using hfirst), bitAt_leBytes word hfirst, wordBitAt,
        show i / 64 = 0 by omega, show i % 64 = i by omega, List.getD_cons_zero]
    · rw [bitAt_append_right (by simp; omega), ih, length_leBytes]
      unfold wordBitAt
      rw [show i / 64 = (i - 8 * 8) / 64 + 1 by omega, List.getD_cons_succ,
        show (i - 8 * 8) % 64 = i % 64 by omega]

/-- Words read from chunks of eight bytes have the bits of the bytes. -/
theorem wordBitAt_map_chunks (bytes : List UInt8) (i : Nat) :
    wordBitAt ((chunks 8 bytes).map ofLeBytes) i = bitAt bytes i := by
  unfold wordBitAt
  simp only [List.getD_eq_getElem?_getD, List.getElem?_map]
  by_cases h : 8 * (i / 64) < bytes.length
  · rw [getElem?_chunks (by decide) h, Option.map_some, Option.getD_some,
      getLsbD_ofLeBytes (Nat.mod_lt i (by decide)), bitAt_take (by omega), bitAt_drop,
      show 8 * (8 * (i / 64)) + i % 64 = i by omega]
  · rw [getElem?_chunks_of_ge (by decide) (Nat.le_of_not_lt h), bitAt_of_ge (by omega)]
    simp

/-! ## Counting -/

/-- There are not more numbers with a property than numbers. -/
theorem countP_range_le (p : Nat → Bool) (n : Nat) : (List.range n).countP p ≤ n := by
  have h := List.countP_le_length (p := p) (l := List.range n)
  rwa [List.length_range] at h

/-- One more number has the property. -/
theorem countP_range_of_eq_false {p q : Nat → Bool} {n k : Nat} (hk : k < n) (hp : p k = false)
    (hq : q k = true) (h : ∀ i ≠ k, q i = p i) :
    (List.range n).countP q = (List.range n).countP p + 1 := by
  induction n with
  | zero => exact absurd hk (Nat.not_lt_zero k)
  | succ n ih =>
    rw [List.range_succ, List.countP_append, List.countP_append]
    by_cases hlast : k = n
    · subst hlast
      have hbefore : (List.range k).countP q = (List.range k).countP p :=
        List.countP_congr fun i hi ↦ by
          rw [h i (Nat.ne_of_lt (List.mem_range.mp hi))]
      rw [hbefore]
      simp [hp, hq]
    · rw [ih (by omega), List.countP_singleton, List.countP_singleton, h n (Ne.symm hlast)]
      omega

/-- Numbers without the property do not count. -/
theorem countP_range_of_le {p : Nat → Bool} {m n : Nat} (hmn : m ≤ n)
    (h : ∀ i, m ≤ i → p i = false) : (List.range n).countP p = (List.range m).countP p := by
  obtain ⟨k, rfl⟩ := Nat.exists_eq_add_of_le hmn
  have hrest : ((List.range k).map (m + ·)).countP p = 0 := by
    rw [List.countP_eq_zero]
    intro i hi
    obtain ⟨j, -, rfl⟩ := List.mem_map.mp hi
    simp [h (m + j) (Nat.le_add_right m j)]
  rw [List.range_add, List.countP_append, hrest, Nat.add_zero]

/-- The bits set in all words. -/
theorem sum_map_countOnes (words : List (BitVec 64)) :
    (words.map countOnes).sum = (List.range (64 * words.length)).countP (wordBitAt words) := by
  induction words with
  | nil => simp
  | cons word words ih =>
    have hfirst : (List.range 64).countP (wordBitAt (word :: words)) = countOnes word := by
      unfold countOnes
      apply List.countP_congr
      intro i hi
      have hlt := List.mem_range.mp hi
      rw [wordBitAt, show i / 64 = 0 by omega, show i % 64 = i by omega, List.getD_cons_zero]
    have hrest : ∀ i, wordBitAt (word :: words) (64 + i) = wordBitAt words i := by
      intro i
      rw [wordBitAt, wordBitAt, show (64 + i) / 64 = i / 64 + 1 by omega, List.getD_cons_succ,
        show (64 + i) % 64 = i % 64 by omega]
    rw [List.map_cons, List.sum_cons, ih, List.length_cons,
      show 64 * (words.length + 1) = 64 + 64 * words.length by omega, List.range_add,
      List.countP_append, hfirst, List.countP_map]
    congr 1
    apply List.countP_congr
    intro i _
    rw [Function.comp_apply, hrest]

end Base
