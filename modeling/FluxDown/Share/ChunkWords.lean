import FluxDown.Base.Bitmap
import FluxDown.Base.Run
import FluxDown.Share.Hashing

/-!
# The bitmap of a set of chunks

Library `Share`. The bits of a set are kept in words of 64 bits beside a counter. On the wire a set
is the bytes of its words, cut where the last chunk ends. The bits after the last chunk are zero and
the counter is the number of chunks held, so that reading the bytes gives the same set back, and a
set in words behaves as the set of its bits.
-/

namespace Share.Words

open Base

/-- The chunks of a file that are held, in words (`src/native/share/src/swarm/chunkset.rs:5–13`). -/
structure ChunkSet where
  words : List (BitVec 64)
  len : Nat
  count : Nat
deriving DecidableEq

namespace ChunkSet

/-- No chunk; no room at all where the words have no index (`chunkset.rs:16–36`). -/
def new (len : Nat) : ChunkSet :=
  if (len + 63) / 64 ≤ maxU64 then ⟨List.replicate ((len + 63) / 64) 0#64, len, 0⟩ else ⟨[], 0, 0⟩

/-- The word of a chunk and its mask (`chunkset.rs:53–59`). -/
def slot (set : ChunkSet) (index : Nat) : Option (BitVec 64 × BitVec 64) :=
  if set.len ≤ index then none
  else set.words[index / 64]?.map fun word ↦ (word, 1#64 <<< (index % 64))

/-- A chunk is held (`chunkset.rs:61–65`). -/
def contains (set : ChunkSet) (index : Nat) : Bool :=
  match set.slot index with
  | some (word, mask) => decide (word &&& mask ≠ 0#64)
  | none => false

/-- Hold a chunk; whether it was not held before (`chunkset.rs:67–77`). -/
def insert (set : ChunkSet) (index : Nat) : ChunkSet × Bool :=
  match set.slot index with
  | none => (set, false)
  | some (word, mask) =>
    let fresh := decide (word &&& mask = 0#64)
    ({ set with
        words := set.words.set (index / 64) (word ||| mask)
        count := if fresh then (set.count + 1) % 2 ^ 64 else set.count }, fresh)

/-- Hold a chunk no more; whether it was held before (`chunkset.rs:79–89`). -/
def remove (set : ChunkSet) (index : Nat) : ChunkSet × Bool :=
  match set.slot index with
  | none => (set, false)
  | some (word, mask) =>
    let had := decide (word &&& mask ≠ 0#64)
    ({ set with
        words := set.words.set (index / 64) (word &&& ~~~mask)
        count := if had then (set.count + (2 ^ 64 - 1)) % 2 ^ 64 else set.count }, had)

/-- The bytes of the words, up to the last chunk (`chunkset.rs:91–100`). -/
def toBytes (set : ChunkSet) : List UInt8 :=
  (set.words.flatMap leBytes).take ((set.len + 7) / 8)

/-- The word of at most eight bytes, missing bytes being zero (`chunkset.rs:114–116`). -/
def readWord (part : List UInt8) : BitVec 64 :=
  ofLeBytes (part ++ List.replicate (8 - part.length) 0)

/-- A set from its bytes (`chunkset.rs:102–130`). -/
def fromBytes (len : Nat) (bytes : List UInt8) : Option ChunkSet :=
  if bytes.length ≠ (len + 7) / 8 then none
  else
    let set := new len
    if set.len ≠ len then none
    else
      let values := (set.words.zip (chunks 8 bytes)).map fun (_, part) ↦ readWord part
      let words := values ++ set.words.drop values.length
      let count := values.foldl (fun count value ↦ (count + countOnes value) % 2 ^ 64) 0
      if len < count then none
      else match words.getLast? with
        | some last =>
          let used := len - (words.length - 1) * 64
          if used < 64 ∧ last >>> used ≠ 0#64 then none else some { set with words, count }
        | none => some { set with words, count }

/-- An operation on a set. -/
inductive Op where
  | insert (index : Nat)
  | remove (index : Nat)
  | contains (index : Nat)
deriving DecidableEq

/-- One operation. -/
def step (set : ChunkSet) : Op → ChunkSet
  | .insert index => (set.insert index).1
  | .remove index => (set.remove index).1
  | .contains _ => set

/-- The set of the bits. -/
def toBits (set : ChunkSet) : Share.ChunkSet := ⟨set.len, wordBitAt set.words⟩

/-- A set for so many chunks whose words end with zeros after the last chunk and whose counter is
the number of bits. -/
structure Valid (len : Nat) (set : ChunkSet) : Prop where
  len_eq : set.len = len
  fits : len ≤ maxU64
  words : set.words.length = (len + 63) / 64
  padding : ∀ i, len ≤ i → wordBitAt set.words i = false
  count : set.count = (List.range len).countP (wordBitAt set.words)

/-! ## One bit -/

private theorem mask_bit {k i : Nat} (hk : k < 64) :
    (1#64 <<< k).getLsbD i = decide (i = k) := by
  rw [← BitVec.twoPow_eq, BitVec.getLsbD_twoPow, decide_eq_true hk, Bool.true_and]
  exact decide_eq_decide.mpr eq_comm

private theorem and_mask_eq_zero {word : BitVec 64} {k : Nat} (hk : k < 64) :
    word &&& (1#64 <<< k) = 0#64 ↔ word.getLsbD k = false := by
  constructor
  · intro h
    have hbit := congrArg (BitVec.getLsbD · k) h
    simpa [mask_bit hk] using hbit
  · intro h
    apply BitVec.eq_of_getLsbD_eq
    intro i _
    rw [BitVec.getLsbD_and, mask_bit hk]
    by_cases hi : i = k
    · simp [hi, h]
    · simp [hi]

/-- Whether the word has the bit of a mask. -/
theorem decide_and_mask {word : BitVec 64} {k : Nat} (hk : k < 64) :
    decide (word &&& (1#64 <<< k) = 0#64) = !word.getLsbD k := by
  by_cases h : word.getLsbD k = false
  · rw [decide_eq_true ((and_mask_eq_zero hk).mpr h), h, Bool.not_false]
  · rw [decide_eq_false (mt (and_mask_eq_zero hk).mp h), eq_true_of_ne_false h,
      Bool.not_true]

namespace Valid

variable {len index : Nat} {set : ChunkSet}

private theorem new (hlen : len ≤ maxU64) : Valid len (ChunkSet.new len) := by
  have hnew : ChunkSet.new len = ⟨List.replicate ((len + 63) / 64) 0#64, len, 0⟩ :=
    if_pos (by unfold maxU64 at *; omega)
  have hzero : ∀ i, wordBitAt (List.replicate ((len + 63) / 64) 0#64) i = false := by
    intro i
    have hword : (List.replicate ((len + 63) / 64) 0#64)[i / 64]?.getD 0#64 = 0#64 :=
      List.getElem?_getD_replicate_default_eq _ _ _
    rw [wordBitAt, List.getD_eq_getElem?_getD, show (0 : BitVec 64) = 0#64 from rfl, hword]
    simp
  rw [hnew]
  exact
    { len_eq := rfl
      fits := hlen
      words := List.length_replicate
      padding := fun i _ ↦ hzero i
      count := by
        symm
        rw [List.countP_eq_zero]
        intro i _
        rw [hzero i]
        exact Bool.false_ne_true }

/-- The word of a chunk of the file. -/
theorem slot_eq (h : Valid len set) (hi : index < len) :
    ∃ word, set.words[index / 64]? = some word ∧
      set.slot index = some (word, 1#64 <<< (index % 64)) ∧
      wordBitAt set.words index = word.getLsbD (index % 64) := by
  have hlt : index / 64 < set.words.length := by rw [h.words]; omega
  refine ⟨set.words[index / 64], List.getElem?_eq_getElem hlt, ?_, ?_⟩
  · rw [slot, h.len_eq, if_neg (Nat.not_le_of_lt hi), List.getElem?_eq_getElem hlt, Option.map_some]
  · rw [wordBitAt, List.getD_eq_getElem _ _ hlt]

private theorem slot_of_ge (h : Valid len set) (hi : len ≤ index) : set.slot index = none := by
  rw [slot, h.len_eq, if_pos hi]

/-- A chunk is held where its bit is set. -/
theorem contains_eq (h : Valid len set) (index : Nat) :
    set.contains index = wordBitAt set.words index := by
  unfold contains
  by_cases hi : index < len
  · obtain ⟨word, -, hslot, hbit⟩ := h.slot_eq hi
    rw [hslot, hbit]
    show decide (word &&& 1#64 <<< (index % 64) ≠ 0#64) = _
    rw [decide_not, decide_and_mask (Nat.mod_lt index (by decide)), Bool.not_not]
  · rw [h.slot_of_ge (Nat.le_of_not_lt hi), h.padding index (Nat.le_of_not_lt hi)]

/-- What holding a chunk does. -/
theorem insert_eq (h : Valid len set) (hi : index < len) :
    (set.insert index).2 = !wordBitAt set.words index ∧ (set.insert index).1.len = len ∧
      (set.insert index).1.words.length = set.words.length ∧
      (∀ i, wordBitAt (set.insert index).1.words i =
        (decide (i = index) || wordBitAt set.words i)) ∧
      (set.insert index).1.count =
        if wordBitAt set.words index then set.count else (set.count + 1) % 2 ^ 64 := by
  obtain ⟨word, hword, hslot, hbit⟩ := h.slot_eq hi
  have hlt : index / 64 < set.words.length := (List.getElem?_eq_some_iff.mp hword).1
  have hmod : index % 64 < 64 := Nat.mod_lt index (by decide)
  have hinsert : set.insert index = ({ set with
      words := set.words.set (index / 64) (word ||| 1#64 <<< (index % 64))
      count := if decide (word &&& 1#64 <<< (index % 64) = 0#64) then (set.count + 1) % 2 ^ 64
        else set.count }, decide (word &&& 1#64 <<< (index % 64) = 0#64)) := by
    rw [insert, hslot]
  have hfresh : decide (word &&& 1#64 <<< (index % 64) = 0#64) = !wordBitAt set.words index := by
    rw [hbit, decide_and_mask hmod]
  rw [hinsert, hfresh]
  refine ⟨rfl, h.len_eq, List.length_set, fun i ↦ ?_, ?_⟩
  · rw [wordBitAt_set hlt, BitVec.getLsbD_or, mask_bit hmod]
    by_cases hsame : i / 64 = index / 64
    · rw [if_pos hsame, wordBitAt, hsame, List.getD_eq_getElem?_getD, hword, Option.getD_some,
        Bool.or_comm]
      congr 1
      apply decide_eq_decide.mpr
      omega
    · rw [if_neg hsame, decide_eq_false (by rintro rfl; exact hsame rfl), Bool.false_or]
  · cases wordBitAt set.words index <;> rfl

/-- What holding a chunk no more does. -/
theorem remove_eq (h : Valid len set) (hi : index < len) :
    (set.remove index).2 = wordBitAt set.words index ∧ (set.remove index).1.len = len ∧
      (set.remove index).1.words.length = set.words.length ∧
      (∀ i, wordBitAt (set.remove index).1.words i =
        (!decide (i = index) && wordBitAt set.words i)) ∧
      (set.remove index).1.count =
        if wordBitAt set.words index then (set.count + (2 ^ 64 - 1)) % 2 ^ 64 else set.count := by
  obtain ⟨word, hword, hslot, hbit⟩ := h.slot_eq hi
  have hlt : index / 64 < set.words.length := (List.getElem?_eq_some_iff.mp hword).1
  have hmod : index % 64 < 64 := Nat.mod_lt index (by decide)
  have hremove : set.remove index = ({ set with
      words := set.words.set (index / 64) (word &&& ~~~(1#64 <<< (index % 64)))
      count := if decide (word &&& 1#64 <<< (index % 64) ≠ 0#64) then
        (set.count + (2 ^ 64 - 1)) % 2 ^ 64 else set.count },
      decide (word &&& 1#64 <<< (index % 64) ≠ 0#64)) := by
    rw [remove, hslot]
  have hhad : decide (word &&& 1#64 <<< (index % 64) ≠ 0#64) = wordBitAt set.words index := by
    rw [hbit, decide_not, decide_and_mask hmod, Bool.not_not]
  rw [hremove, hhad]
  refine ⟨rfl, h.len_eq, List.length_set, fun i ↦ ?_, rfl⟩
  rw [wordBitAt_set hlt, BitVec.getLsbD_and, BitVec.getLsbD_not, mask_bit hmod,
    decide_eq_true (Nat.mod_lt i (by decide)), Bool.true_and]
  by_cases hsame : i / 64 = index / 64
  · rw [if_pos hsame, wordBitAt, hsame, List.getD_eq_getElem?_getD, hword, Option.getD_some,
      Bool.and_comm]
    congr 2
    apply decide_eq_decide.mpr
    omega
  · rw [if_neg hsame, decide_eq_false (by rintro rfl; exact hsame rfl), Bool.not_false,
      Bool.true_and]

private theorem insert (h : Valid len set) (index : Nat) : Valid len (set.insert index).1 := by
  by_cases hi : index < len
  · obtain ⟨-, hlen, hwords, hbits, hcount⟩ := h.insert_eq hi
    have hfits := h.fits
    refine ⟨hlen, h.fits, hwords.trans h.words, fun i hout ↦ ?_, ?_⟩
    · rw [hbits, h.padding i hout, decide_eq_false (by omega), Bool.false_or]
    · rw [hcount]
      by_cases hset : wordBitAt set.words index
      · rw [if_pos hset, h.count]
        apply List.countP_congr
        intro i _
        rw [hbits]
        by_cases hsame : i = index
        · simp [hsame, hset]
        · simp [hsame]
      · have hmore := countP_range_of_eq_false hi (Bool.eq_false_iff.mpr hset)
          (show wordBitAt (set.insert index).1.words index = true by rw [hbits]; simp)
          (fun i hne ↦ by rw [hbits, decide_eq_false hne, Bool.false_or])
        have hbound' : (List.range len).countP (wordBitAt (set.insert index).1.words) ≤ len :=
          countP_range_le _ _
        unfold maxU64 at hfits
        rw [if_neg hset, hmore, ← h.count, Nat.mod_eq_of_lt]
        rw [hmore, ← h.count] at hbound'
        omega
  · rw [ChunkSet.insert, h.slot_of_ge (Nat.le_of_not_lt hi)]
    exact h

private theorem remove (h : Valid len set) (index : Nat) : Valid len (set.remove index).1 := by
  by_cases hi : index < len
  · obtain ⟨-, hlen, hwords, hbits, hcount⟩ := h.remove_eq hi
    have hfits := h.fits
    refine ⟨hlen, h.fits, hwords.trans h.words, fun i hout ↦ ?_, ?_⟩
    · rw [hbits, h.padding i hout, Bool.and_false]
    · rw [hcount]
      by_cases hset : wordBitAt set.words index
      · have hmore := countP_range_of_eq_false hi
          (show wordBitAt (set.remove index).1.words index = false by rw [hbits]; simp) hset
          (fun i hne ↦ by rw [hbits, decide_eq_false hne, Bool.not_false, Bool.true_and])
        have hbound : set.count ≤ len := by
          rw [h.count]
          exact countP_range_le _ _
        unfold maxU64 at hfits
        rw [← h.count] at hmore
        rw [if_pos hset]
        omega
      · rw [if_neg hset, h.count]
        apply List.countP_congr
        intro i _
        rw [hbits]
        by_cases hsame : i = index
        · simp [hsame, hset]
        · simp [hsame]
  · rw [ChunkSet.remove, h.slot_of_ge (Nat.le_of_not_lt hi)]
    exact h

private theorem step (h : Valid len set) (op : Op) : Valid len (ChunkSet.step set op) := by
  cases op with
  | insert index => exact h.insert index
  | remove index => exact h.remove index
  | contains _ => exact h

/-- The members of a set are counted. -/
theorem count_eq (h : Valid len set) : set.count = (List.range len).countP (set.contains ·) := by
  rw [h.count]
  apply List.countP_congr
  intro i _
  rw [h.contains_eq]

/-- Sets for as many chunks with the same bits are equal. -/
theorem ext {set' : ChunkSet} (h : Valid len set) (h' : Valid len set')
    (hbits : ∀ i, wordBitAt set.words i = wordBitAt set'.words i) : set = set' := by
  have hwords : set.words = set'.words :=
    words_ext (h.words.trans h'.words.symm) fun i _ ↦ hbits i
  have hcount : set.count = set'.count := by rw [h.count, h'.count, hwords]
  have hlen : set.len = set'.len := h.len_eq.trans h'.len_eq.symm
  cases set
  cases set'
  simp_all

/-! ## The set of the bits -/

private theorem contains_toBits (h : Valid len set) (index : Nat) :
    set.toBits.contains index = set.contains index := by
  rw [h.contains_eq, Share.ChunkSet.contains, toBits, h.len_eq]
  by_cases hi : index < len
  · rw [decide_eq_true hi, Bool.true_and]
  · rw [decide_eq_false hi, Bool.false_and, h.padding index (Nat.le_of_not_lt hi)]

private theorem insert_toBits (h : Valid len set) (index : Nat) :
    set.toBits.insert index = ((set.insert index).1.toBits, (set.insert index).2) := by
  unfold Share.ChunkSet.insert toBits
  by_cases hi : index < len
  · obtain ⟨hfresh, hlen, -, hbits, -⟩ := h.insert_eq hi
    rw [if_pos (by rw [h.len_eq]; exact hi), hfresh, hlen, h.len_eq, funext hbits]
    congr 2
    funext i
    by_cases hsame : i = index
    · simp [hsame]
    · simp [hsame]
  · rw [if_neg (by rw [h.len_eq]; exact hi), ChunkSet.insert,
      h.slot_of_ge (Nat.le_of_not_lt hi)]

private theorem remove_toBits (h : Valid len set) (index : Nat) :
    set.toBits.remove index = ((set.remove index).1.toBits, (set.remove index).2) := by
  unfold Share.ChunkSet.remove toBits
  by_cases hi : index < len
  · obtain ⟨hhad, hlen, -, hbits, -⟩ := h.remove_eq hi
    rw [if_pos (by rw [h.len_eq]; exact hi), hhad, hlen, h.len_eq, funext hbits]
    congr 2
    funext i
    by_cases hsame : i = index
    · simp [hsame]
    · simp [hsame]
  · rw [if_neg (by rw [h.len_eq]; exact hi), ChunkSet.remove,
      h.slot_of_ge (Nat.le_of_not_lt hi)]

/-! ## Bytes -/

private theorem length_toBytes (h : Valid len set) : set.toBytes.length = (len + 7) / 8 := by
  rw [toBytes, List.length_take, length_flatMap_leBytes, h.words, h.len_eq]
  omega

private theorem bitAt_toBytes (h : Valid len set) (i : Nat) :
    bitAt set.toBytes i = wordBitAt set.words i := by
  by_cases hi : i < 8 * ((len + 7) / 8)
  · rw [toBytes, h.len_eq, bitAt_take hi, bitAt_flatMap_leBytes]
  · rw [bitAt_of_ge (by rw [h.length_toBytes]; omega), h.padding i (by omega)]

private theorem getLsbD_sum (f : Nat → Bool) {k : Nat} (hk : k < 8) :
    (UInt8.ofNat ((List.range 8).map fun bit ↦ (f bit).toNat * 2 ^ bit).sum).toBitVec.getLsbD k =
      f k := by
  have hbits : ∀ b₀ b₁ b₂ b₃ b₄ b₅ b₆ b₇ : Bool, ∀ k : Fin 8,
      (UInt8.ofNat (b₀.toNat * 1 + (b₁.toNat * 2 + (b₂.toNat * 4 + (b₃.toNat * 8 + (b₄.toNat * 16 +
        (b₅.toNat * 32 + (b₆.toNat * 64 + (b₇.toNat * 128 + 0))))))))).toBitVec.getLsbD k =
        [b₀, b₁, b₂, b₃, b₄, b₅, b₆, b₇][k] := by decide
  have h := hbits (f 0) (f 1) (f 2) (f 3) (f 4) (f 5) (f 6) (f 7) ⟨k, hk⟩
  have hget : ((List.range 8).map f).get ⟨k, by simpa using hk⟩ = f k := by simp
  exact h.trans hget

/-- The bytes of the words are the bytes of the bits. -/
theorem toBytes_toBits (h : Valid len set) : set.toBits.toBytes = set.toBytes := by
  have hlength : set.toBits.toBytes.length = (len + 7) / 8 := by
    simp [Share.ChunkSet.toBytes, toBits, h.len_eq]
  apply bytes_ext (hlength.trans h.length_toBytes.symm)
  intro i hi
  rw [h.bitAt_toBytes, bitAt, List.getD_eq_getElem _ _ (by omega)]
  simp only [Share.ChunkSet.toBytes, List.getElem_map, List.getElem_range]
  rw [getLsbD_sum (fun bit ↦ set.toBits.bits (8 * (i / 8) + bit)) (Nat.mod_lt i (by decide)),
    Nat.div_add_mod]
  rfl

end Valid

private theorem readWord_eq (part : List UInt8) : readWord part = ofLeBytes part := by
  apply BitVec.eq_of_getLsbD_eq
  intro i hi
  rw [readWord, getLsbD_ofLeBytes hi, getLsbD_ofLeBytes hi, bitAt_append_zeros]

private theorem foldl_countOnes (values : List (BitVec 64)) (count : Nat) :
    values.foldl (fun count value ↦ (count + countOnes value) % 2 ^ 64) (count % 2 ^ 64) =
      (count + (values.map countOnes).sum) % 2 ^ 64 := by
  induction values generalizing count with
  | nil => rfl
  | cons value values ih =>
    rw [List.foldl_cons, Nat.mod_add_mod, ih, List.map_cons, List.sum_cons, Nat.add_assoc]

variable {len : Nat} {bytes : List UInt8} {set : ChunkSet}

/-- Reading bytes of the right length: the words, their count, and the two checks of the bits after
the last chunk. -/
theorem fromBytes_eq (hlen : len ≤ maxU64) (hlength : bytes.length = (len + 7) / 8) :
    ∃ words : List (BitVec 64), words.length = (len + 63) / 64 ∧
      (∀ i, wordBitAt words i = bitAt bytes i) ∧
      fromBytes len bytes =
        if len < (words.map countOnes).sum % 2 ^ 64 then none
        else match words.getLast? with
          | some last =>
            if len - (words.length - 1) * 64 < 64 ∧ last >>> (len - (words.length - 1) * 64) ≠ 0#64
            then none else some ⟨words, len, (words.map countOnes).sum % 2 ^ 64⟩
          | none => some ⟨words, len, (words.map countOnes).sum % 2 ^ 64⟩ := by
  have hnew : new len = ⟨List.replicate ((len + 63) / 64) 0#64, len, 0⟩ :=
    if_pos (by unfold maxU64 at *; omega)
  have hchunks : (chunks 8 bytes).length = (len + 63) / 64 := by
    rw [length_chunks, hlength]
    omega
  have hvalues : ((new len).words.zip (chunks 8 bytes)).map (fun (_, part) ↦ readWord part) =
      (chunks 8 bytes).map ofLeBytes := by
    rw [hnew, funext readWord_eq]
    show List.map (ofLeBytes ∘ Prod.snd) _ = _
    rw [← List.map_map, List.map_snd_zip (by rw [List.length_replicate]; exact Nat.le_of_eq hchunks)]
  have hwords : (chunks 8 bytes).map ofLeBytes ++
      (new len).words.drop ((chunks 8 bytes).map ofLeBytes).length =
        (chunks 8 bytes).map ofLeBytes := by
    rw [hnew, List.drop_of_length_le (by simp [hchunks]), List.append_nil]
  have hcount := foldl_countOnes ((chunks 8 bytes).map ofLeBytes) 0
  rw [Nat.zero_mod, Nat.zero_add] at hcount
  refine ⟨(chunks 8 bytes).map ofLeBytes, by rw [List.length_map, hchunks],
    wordBitAt_map_chunks bytes, ?_⟩
  rw [fromBytes, if_neg (not_not.mpr hlength)]
  simp only [hvalues, hwords, hcount]
  rw [if_neg (by rw [hnew]; exact not_not.mpr rfl), hnew]

/-- The bits of the last word after the last chunk. -/
theorem last_padding {words : List (BitVec 64)} {last : BitVec 64}
    (hwords : words.length = (len + 63) / 64) (hlast : words.getLast? = some last) :
    (len - (words.length - 1) * 64 < 64 ∧ last >>> (len - (words.length - 1) * 64) ≠ 0#64) ↔
      ¬∀ i, len ≤ i → wordBitAt words i = false := by
  have hget : words[words.length - 1]? = some last := by
    rw [← List.getLast?_eq_getElem?, hlast]
  have hpos := (List.getElem?_eq_some_iff.mp hget).1
  have hbit : ∀ k < 64, wordBitAt words ((words.length - 1) * 64 + k) = last.getLsbD k := by
    intro k hk
    rw [wordBitAt, show ((words.length - 1) * 64 + k) / 64 = words.length - 1 by omega,
      show ((words.length - 1) * 64 + k) % 64 = k by omega, List.getD_eq_getElem?_getD, hget,
      Option.getD_some]
  rw [← not_iff_not, not_not, not_and_not_right]
  constructor
  · intro hshift i hi
    by_cases hin : i < 64 * words.length
    · have hsplit : i = (words.length - 1) * 64 + (i - (words.length - 1) * 64) := by omega
      have hzero := congrArg (BitVec.getLsbD · (i - len)) (hshift (by omega))
      simp only [BitVec.getLsbD_ushiftRight, BitVec.getLsbD_zero] at hzero
      rw [hsplit, hbit _ (by omega), ← hzero]
      congr 1
      omega
    · exact wordBitAt_of_ge (by omega)
  · intro hzero hused
    apply BitVec.eq_of_getLsbD_eq
    intro k _
    rw [BitVec.getLsbD_ushiftRight, BitVec.getLsbD_zero]
    by_cases hk : len - (words.length - 1) * 64 + k < 64
    · rw [← hbit _ hk]
      exact hzero _ (by omega)
    · exact BitVec.getLsbD_of_ge last _ (by omega)

/-- Bytes of the right length whose bits after the last chunk are zero are read. -/
theorem fromBytes_of_padding (hlen : len ≤ maxU64)
    (hlength : bytes.length = (len + 7) / 8) (hpad : ∀ i, len ≤ i → bitAt bytes i = false) :
    ∃ set, fromBytes len bytes = some set ∧ Valid len set ∧
      ∀ i, wordBitAt set.words i = bitAt bytes i := by
  obtain ⟨words, hwords, hbits, heq⟩ := fromBytes_eq hlen hlength
  have hzero : ∀ i, len ≤ i → wordBitAt words i = false := fun i hi ↦ by rw [hbits, hpad i hi]
  have hcount : (words.map countOnes).sum = (List.range len).countP (wordBitAt words) := by
    rw [sum_map_countOnes]
    exact countP_range_of_le (by omega) hzero
  have hle := countP_range_le (wordBitAt words) len
  have hmod : (words.map countOnes).sum % 2 ^ 64 = (words.map countOnes).sum := by
    unfold maxU64 at hlen
    exact Nat.mod_eq_of_lt (by omega)
  rw [hmod, hcount] at heq
  refine ⟨⟨words, len, (List.range len).countP (wordBitAt words)⟩, ?_,
    ⟨rfl, hlen, hwords, hzero, rfl⟩, hbits⟩
  rw [heq, if_neg (Nat.not_lt_of_le hle)]
  cases hlast : words.getLast? with
  | none => rfl
  | some last => exact if_neg fun h ↦ (last_padding hwords hlast).mp h hzero

/-- Bytes that are read have the right length and end with zeros. -/
theorem padding_of_fromBytes (hlen : len ≤ maxU64) (h : fromBytes len bytes = some set) :
    bytes.length = (len + 7) / 8 ∧ ∀ i, len ≤ i → bitAt bytes i = false := by
  by_cases hlength : bytes.length = (len + 7) / 8
  · obtain ⟨words, hwords, hbits, heq⟩ := fromBytes_eq hlen hlength
    refine ⟨hlength, fun i hi ↦ ?_⟩
    rw [heq] at h
    split at h
    · cases h
    · cases hlast : words.getLast? with
      | none =>
        rw [← hbits, wordBitAt_of_ge]
        rw [List.getLast?_eq_none_iff.mp hlast]
        exact Nat.zero_le i
      | some last =>
        rw [hlast] at h
        simp only at h
        split at h
        · cases h
        · next hcheck =>
          have hzero := not_not.mp (mt (last_padding hwords hlast).mpr hcheck)
          rw [← hbits, hzero i hi]
  · rw [fromBytes, if_pos hlength] at h
    cases h

/-- Every set reached by operations is read back from its bytes and counts its members. Bytes are
read exactly if they are as many as needed and the bits after the last chunk are zero, and then
they are the bytes of the set. -/
theorem bitmap_codec (hlen : len ≤ maxU64) :
    (∀ ops : List Op,
      fromBytes len (run step (new len) ops).toBytes = some (run step (new len) ops) ∧
        (run step (new len) ops).count =
          (List.range len).countP ((run step (new len) ops).contains ·)) ∧
      (∀ bytes, (fromBytes len bytes).isSome ↔
        bytes.length = (len + 7) / 8 ∧ ∀ i, len ≤ i → bitAt bytes i = false) ∧
      ∀ bytes set, fromBytes len bytes = some set → set.toBytes = bytes := by
  have hreach : ∀ ops : List Op, Valid len (run step (new len) ops) :=
    run_preserves (fun _ op h ↦ h.step op) (.new hlen)
  refine ⟨fun ops ↦ ⟨?_, (hreach ops).count_eq⟩, fun bytes ↦ ⟨fun h ↦ ?_, fun h ↦ ?_⟩,
    fun bytes set h ↦ ?_⟩
  · have hset := hreach ops
    obtain ⟨set', hread, hset', hbits⟩ := fromBytes_of_padding hlen hset.length_toBytes
      fun i hi ↦ by rw [hset.bitAt_toBytes, hset.padding i hi]
    rw [hread, hset'.ext hset fun i ↦ by rw [hbits, hset.bitAt_toBytes]]
  · obtain ⟨set, hread⟩ := Option.isSome_iff_exists.mp h
    exact padding_of_fromBytes hlen hread
  · obtain ⟨set, hread, -⟩ := fromBytes_of_padding hlen h.1 h.2
    rw [hread, Option.isSome_some]
  · obtain ⟨hlength, hpad⟩ := padding_of_fromBytes hlen h
    obtain ⟨set', hread, hset', hbits⟩ := fromBytes_of_padding hlen hlength hpad
    obtain rfl : set = set' := Option.some.inj (h.symm.trans hread)
    apply bytes_ext (hset'.length_toBytes.trans hlength.symm)
    intro i _
    rw [hset'.bitAt_toBytes, hbits]

/-- A set of 70 chunks comes back from its bitmap. -/
theorem bitmap_codec_seventy :
    fromBytes 70 (run step (new 70) [.insert 3, .insert 69, .insert 70, .remove 3]).toBytes =
        some (run step (new 70) [.insert 3, .insert 69, .insert 70, .remove 3]) ∧
      (run step (new 70) [.insert 3, .insert 69, .insert 70, .remove 3]).count = 1 :=
  have h := (@bitmap_codec 70 (by decide)).1 [.insert 3, .insert 69, .insert 70, .remove 3]
  ⟨h.1, h.2.trans (by decide)⟩

end ChunkSet

end Share.Words
