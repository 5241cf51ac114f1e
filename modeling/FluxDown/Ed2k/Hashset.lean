import FluxDown.Base.Framing
import FluxDown.Base.Tiling
import FluxDown.Ed2k.Hash

/-!
# Hashsets and the files they stand for

Library `Ed2k`. The part hashes that peers send are checked against the root of the link, stored
without the empty part, and compared with the parts on disk when all is there. The root of a link
is that of the parts of the file, counting the empty part behind a file that fills its last one.
Two texts with one MD4 are excluded among the texts that are hashed.
-/

namespace Ed2k

open Base

variable (hashPart : List UInt8 → Md4)

/-! ## The final check -/

/-- Why the final check fails. `src/native/engine/src/ed2k/mod.rs:1117–1195`. -/
inductive FinalizeError where
  | io
  | db
  | ed2k (text : String)
  | ed2kIntegrity (text : String)
deriving DecidableEq

/-- What the final check writes into the table of blocks. -/
inductive BlocksUpdate where
  | missing (indices : List Nat)
  | reset
deriving DecidableEq

/-- The hashes of the parts on disk; none where the file is too short. `mod.rs:1129–1148`. -/
def diskHashes (disk : List UInt8) (totalSize partSize : Nat) : Option (List Md4) :=
  (List.range (partCount totalSize partSize)).mapM fun i ↦
    let (start, stop) := partSpan i totalSize partSize
    if disk.length < stop then none
    else some (hashPart ((disk.drop start).take (stop - start)))

/-- Cut into `count` pieces of 16 bytes. -/
def asChunks : Nat → List UInt8 → List Md4
  | 0, _ => []
  | count + 1, bytes => bytes.take 16 :: asChunks count (bytes.drop 16)

/-- The blocks whose hash on disk is not the stored one. `mod.rs:1168–1175`. -/
def badBlocks (onDisk stored : List Md4) : List Nat :=
  ((onDisk.zip stored).zipIdx.filter fun e ↦ e.1.1 ≠ e.1.2).map Prod.snd

/-- The final check. `hashset` is what the database holds and `writes` whether an update of the
table of blocks succeeds. `mod.rs:1117–1195`. -/
def finalizeAndVerify (hashset : Except Unit (Option (List UInt8))) (writes : Bool)
    (disk : List UInt8) (rootHash : Md4) (totalBytes partSize : Nat) :
    Option BlocksUpdate × Except FinalizeError Unit :=
  let refuse (update : BlocksUpdate) (text : String) :
      Option BlocksUpdate × Except FinalizeError Unit :=
    if writes then (some update, .error (.ed2kIntegrity text)) else (none, .error .db)
  let count := partCount totalBytes partSize
  match diskHashes hashPart disk totalBytes partSize with
  | none => (none, .error .io)
  | some onDisk =>
    if isSingleBlock totalBytes partSize then
      if onDisk.head? ≠ some rootHash then refuse (.missing [0]) "single block hash mismatch"
      else (none, .ok ())
    else match hashset with
      | .error () => (none, .error .db)
      | .ok none => (none, .error (.ed2k "hashset missing in db"))
      | .ok (some blob) =>
        if blob.length ≠ count * 16 then (none, .error (.ed2k "hashset blob length mismatch"))
        else
          let bad := badBlocks onDisk (asChunks (blob.length / 16) blob)
          if bad ≠ [] then refuse (.missing bad) "disk block hash mismatch"
          else if computeRoot hashPart (buildRootInput onDisk totalBytes partSize) ≠ rootHash then
            refuse .reset "recomputed root mismatch (corrupt hashset table?)"
          else (none, .ok ())

/-! ## What a root stands for -/

/-- A part of a file; empty behind its end. -/
def filePart (content : List UInt8) (partSize index : Nat) : List UInt8 :=
  (content.drop (index * partSize)).take partSize

/-- The hashes of the parts, without the empty one at the end. -/
def partHashes (content : List UInt8) (partSize : Nat) : List Md4 :=
  (List.range (partCount content.length partSize)).map fun i ↦
    hashPart (filePart content partSize i)

/-- The hashes that a root is made of: a file that fills its last part has an empty one behind. -/
def rootHashes (content : List UInt8) (partSize : Nat) : List Md4 :=
  (List.range (content.length / partSize + 1)).map fun i ↦
    hashPart (filePart content partSize i)

/-- The root of a file. -/
def fileRoot (content : List UInt8) (partSize : Nat) : Md4 :=
  computeRoot hashPart (rootHashes hashPart content partSize)

/-- The texts that are hashed for the root of a file. -/
def hashedFor (content : List UInt8) (partSize : Nat) : Set (List UInt8) :=
  {text | (∃ i, text = filePart content partSize i) ∨
    text = (rootHashes hashPart content partSize).flatten}

/-! ## Parts -/

section Parts

variable {hashPart} {totalSize partSize : Nat}

private theorem partCount_of_dvd (hsize : 0 < totalSize) (hdvd : totalSize % partSize = 0) :
    partCount totalSize partSize = totalSize / partSize := by
  unfold partCount
  rw [if_neg (by omega), if_neg (by omega)]

private theorem partCount_of_not_dvd (hrest : 0 < totalSize % partSize) :
    partCount totalSize partSize = totalSize / partSize + 1 := by
  unfold partCount
  split
  · next hzero =>
    subst hzero
    rw [Nat.zero_mod] at hrest
    omega
  · rfl

private theorem isPhantomTail_iff :
    isPhantomTail totalSize partSize = true ↔ 0 < totalSize ∧ totalSize % partSize = 0 := by
  simp [isPhantomTail]

/-- Parts with the empty one at the end. -/
theorem partCount_add_phantom (partSize : Nat) :
    partCount totalSize partSize + (isPhantomTail totalSize partSize).toNat =
      totalSize / partSize + 1 := by
  by_cases hphantom : isPhantomTail totalSize partSize = true
  · obtain ⟨hsize, hdvd⟩ := isPhantomTail_iff.mp hphantom
    rw [partCount_of_dvd hsize hdvd, hphantom]
    rfl
  · rw [Bool.not_eq_true] at hphantom
    rw [hphantom]
    rw [← Bool.not_eq_true, isPhantomTail_iff] at hphantom
    rcases Nat.eq_zero_or_pos totalSize with rfl | hsize
    · simp [partCount]
    · have hrest : 0 < totalSize % partSize := by
        by_contra hzero
        exact hphantom ⟨hsize, by omega⟩
      exact partCount_of_not_dvd hrest

private theorem partCount_bounds (hsize : 0 < totalSize) (hpart : 0 < partSize) :
    (partCount totalSize partSize - 1) * partSize < totalSize ∧
      totalSize ≤ partCount totalSize partSize * partSize ∧
        0 < partCount totalSize partSize := by
  have hdivmod := Nat.div_add_mod' totalSize partSize
  have hmod := Nat.mod_lt totalSize hpart
  by_cases hrest : 0 < totalSize % partSize
  · rw [partCount_of_not_dvd hrest, Nat.add_sub_cancel, Nat.succ_mul]
    generalize totalSize / partSize = whole at hdivmod ⊢
    generalize totalSize % partSize = rest at *
    omega
  · rw [partCount_of_dvd hsize (by omega), Nat.sub_mul, Nat.one_mul]
    generalize totalSize / partSize = whole at hdivmod ⊢
    generalize totalSize % partSize = rest at *
    have hwhole : 0 < whole := by
      by_contra hzero
      obtain rfl : whole = 0 := by omega
      omega
    omega

/-- A part starts in the file. -/
theorem mul_lt_of_lt_partCount (hpart : 0 < partSize) {i : Nat}
    (hi : i < partCount totalSize partSize) (hsize : 0 < totalSize) :
    i * partSize < totalSize := by
  have hbounds := partCount_bounds hsize hpart
  have hle : i * partSize ≤ (partCount totalSize partSize - 1) * partSize :=
    Nat.mul_le_mul_right _ (by omega)
  omega

/-- A span without the limits of 64 bits. -/
theorem partSpan_eq (hpart : 0 < partSize) (hfits : totalSize ≤ maxU64) {i : Nat}
    (hi : i < partCount totalSize partSize) :
    partSpan i totalSize partSize =
      (i * partSize, min (i * partSize + partSize) totalSize) := by
  have hstart : i * partSize ≤ totalSize := by
    rcases Nat.eq_zero_or_pos totalSize with rfl | hsize
    · have hone : i = 0 := by
        simp only [partCount, if_true] at hi
        omega
      rw [hone, Nat.zero_mul]
    · exact (mul_lt_of_lt_partCount hpart hi hsize).le
  unfold partSpan
  ext
  · change min (min (i * partSize) maxU64) totalSize = i * partSize
    omega
  · change min (min (min (i * partSize) maxU64 + partSize) maxU64) totalSize =
      min (i * partSize + partSize) totalSize
    omega

/-- A half-open range as a span of points. -/
def spanOf (range : Nat × Nat) : Span := ⟨range.1, range.2 - 1⟩

/-- The spans follow one another through the file. -/
theorem chain_partSpan (hpart : 0 < partSize) (hfits : totalSize ≤ maxU64) (hsize : 0 < totalSize)
    {n : Nat} (hn : n ≤ partCount totalSize partSize) :
    Chain 0 ((List.range n).map fun i ↦ spanOf (partSpan i totalSize partSize))
      (min (n * partSize) totalSize : Nat) := by
  induction n with
  | zero => simp [Chain]
  | succ n ih =>
    have hstart := mul_lt_of_lt_partCount hpart hn hsize
    rw [List.range_succ, List.map_append, List.map_singleton, partSpan_eq hpart hfits hn]
    refine (ih (by omega)).append ⟨?_, ?_, ?_⟩
    · simp only [spanOf]
      omega
    · simp only [spanOf, Span.Nonempty]
      omega
    · rw [Nat.succ_mul]
      simp only [spanOf, Chain]
      omega

/-- Contents of one length with the same parts are the same. -/
theorem eq_of_filePart (hpart : 0 < partSize) {a b : List UInt8} (hlength : a.length = b.length)
    (hparts : ∀ i < a.length / partSize + 1, filePart a partSize i = filePart b partSize i) :
    a = b := by
  apply List.ext_getElem? fun j ↦ ?_
  by_cases hj : j < a.length
  · have hindex : j / partSize < a.length / partSize + 1 :=
      Nat.lt_succ_of_le (Nat.div_le_div_right hj.le)
    have hbyte : ∀ content : List UInt8,
        (filePart content partSize (j / partSize))[j % partSize]? = content[j]? := by
      intro content
      unfold filePart
      rw [List.getElem?_take_of_lt (Nat.mod_lt j hpart), List.getElem?_drop,
        Nat.div_add_mod']
    rw [← hbyte a, ← hbyte b, hparts _ hindex]
  · rw [List.getElem?_eq_none (by omega), List.getElem?_eq_none (by omega)]

/-- Behind a file that fills its last part comes an empty one. -/
theorem filePart_end {content : List UInt8} (hdvd : content.length % partSize = 0) :
    filePart content partSize (content.length / partSize) = [] := by
  have hend : content.length / partSize * partSize = content.length := by
    have hdivmod := Nat.div_add_mod' content.length partSize
    omega
  rw [filePart, hend, List.drop_length, List.take_nil]

end Parts

/-! ## Roots -/

section Roots

variable {hashPart} {partSize : Nat} {content : List UInt8}

private theorem rootHashes_eq (hempty : hashPart [] = md4Empty) :
    rootHashes hashPart content partSize =
      buildRootInput (partHashes hashPart content partSize) content.length partSize := by
  unfold rootHashes partHashes buildRootInput
  rw [← partCount_add_phantom]
  split
  · next hphantom =>
    obtain ⟨hsize, hdvd⟩ := isPhantomTail_iff.mp hphantom
    rw [hphantom, Bool.toNat_true, List.range_succ, List.map_append, List.map_singleton,
      partCount_of_dvd hsize hdvd, filePart_end hdvd, hempty]
  · next hplain =>
    rw [Bool.not_eq_true] at hplain
    rw [hplain, Bool.toNat_false, Nat.add_zero]

/-- Digests of 16 bytes, put together, can be told apart. -/
theorem flatten_inj {hashes hashes' : List Md4} (hlength : ∀ h ∈ hashes, h.length = 16)
    (hlength' : ∀ h ∈ hashes', h.length = 16) (hcount : hashes.length = hashes'.length)
    (hsame : hashes.flatten = hashes'.flatten) : hashes = hashes' := by
  have hreadable : Readable (fun h : Md4 ↦ h.length = 16) id :=
    Readable.of_length (fun _ h ↦ h) fun _ _ _ _ h ↦ h
  apply hreadable.flatMap_injective hlength hlength' hcount
  rw [List.flatMap_id, List.flatMap_id]
  exact hsame

/-- A root tells hashes of one count apart. -/
theorem computeRoot_inj {hashes hashes' : List Md4} (hlength : ∀ h ∈ hashes, h.length = 16)
    (hlength' : ∀ h ∈ hashes', h.length = 16) (hcount : hashes.length = hashes'.length)
    (hinj : hashPart hashes.flatten = hashPart hashes'.flatten →
      hashes.flatten = hashes'.flatten)
    (hsame : computeRoot hashPart hashes = computeRoot hashPart hashes') : hashes = hashes' := by
  unfold computeRoot at hsame
  split at hsame
  · split at hsame
    · rw [hsame]
    · next hmany =>
      obtain ⟨h, rfl⟩ := List.length_eq_one_iff.mp hcount.symm
      exact absurd rfl (hmany h)
  · next hmany =>
    split at hsame
    · obtain ⟨h, rfl⟩ := List.length_eq_one_iff.mp hcount
      exact absurd rfl (hmany h)
    · exact flatten_inj hlength hlength' hcount (hinj hsame)

private theorem length_mem_buildRootInput {hashes : List Md4}
    (hlength : ∀ h ∈ hashes, h.length = 16)
    (totalSize partSize : Nat) :
    ∀ h ∈ buildRootInput hashes totalSize partSize, h.length = 16 := by
  intro h hmem
  unfold buildRootInput at hmem
  split at hmem
  · rcases List.mem_append.mp hmem with hmem | hmem
    · exact hlength h hmem
    · rw [List.mem_singleton.mp hmem]
      rfl
  · exact hlength h hmem

private theorem buildRootInput_inj {hashes hashes' : List Md4} {totalSize : Nat}
    (hsame : buildRootInput hashes totalSize partSize =
      buildRootInput hashes' totalSize partSize) : hashes = hashes' := by
  unfold buildRootInput at hsame
  split at hsame
  · exact List.append_cancel_right hsame
  · exact hsame

private theorem length_buildRootInput {hashes hashes' : List Md4} (totalSize : Nat)
    (hcount : hashes.length = hashes'.length) :
    (buildRootInput hashes totalSize partSize).length =
      (buildRootInput hashes' totalSize partSize).length := by
  unfold buildRootInput
  split
  · rw [List.length_append, List.length_append, hcount]
  · exact hcount

/-- Digests of parts have 16 bytes. -/
theorem length_mem_partHashes (hlength : ∀ text, (hashPart text).length = 16) :
    ∀ h ∈ partHashes hashPart content partSize, h.length = 16 := by
  intro h hmem
  obtain ⟨i, -, rfl⟩ := List.mem_map.mp hmem
  exact hlength _

/-- There is a hash for each part. -/
theorem length_partHashes :
    (partHashes hashPart content partSize).length = partCount content.length partSize := by
  rw [partHashes, List.length_map, List.length_range]

/-- The root is made of hashes of these parts and no others. -/
theorem root_iff (hlength : ∀ text, (hashPart text).length = 16) (hempty : hashPart [] = md4Empty)
    {hashes : List Md4} (hhashes : ∀ h ∈ hashes, h.length = 16)
    (hcount : hashes.length = partCount content.length partSize)
    (hinj : Set.InjOn hashPart {(rootHashes hashPart content partSize).flatten,
      (buildRootInput hashes content.length partSize).flatten}) :
    computeRoot hashPart (buildRootInput hashes content.length partSize) =
        fileRoot hashPart content partSize ↔
      hashes = partHashes hashPart content partSize := by
  unfold fileRoot
  constructor
  · intro hsame
    apply buildRootInput_inj
    rw [← rootHashes_eq hempty]
    apply computeRoot_inj (length_mem_buildRootInput hhashes _ _) _ _
      (hinj (by simp) (by simp)) hsame
    · rw [rootHashes_eq hempty]
      exact length_mem_buildRootInput (length_mem_partHashes hlength) _ _
    · rw [rootHashes_eq hempty]
      exact length_buildRootInput _ (hcount.trans length_partHashes.symm)
  · rintro rfl
    rw [rootHashes_eq hempty]

/-- What `normalize_hashset` returns. -/
theorem normalizeHashset_eq_some {hashes trimmed : List Md4} {expectedRoot : Md4}
    {totalSize : Nat} :
    normalizeHashset hashPart hashes expectedRoot totalSize partSize = some trimmed ↔
      trimmed.length = partCount totalSize partSize ∧
        (hashes = trimmed ∨
          isPhantomTail totalSize partSize = true ∧ hashes = trimmed ++ [md4Empty]) ∧
        computeRoot hashPart (buildRootInput trimmed totalSize partSize) = expectedRoot := by
  unfold normalizeHashset
  dsimp only
  by_cases htail : hashes.length = partCount totalSize partSize + 1 ∧
      isPhantomTail totalSize partSize = true ∧
        hashes[partCount totalSize partSize]? = some md4Empty
  · rw [if_pos htail]
    obtain ⟨hcount, hphantom, hlast⟩ := htail
    have hsplit : hashes = hashes.take (partCount totalSize partSize) ++ [md4Empty] := by
      have htake : hashes.take (partCount totalSize partSize + 1) =
          hashes.take (partCount totalSize partSize) ++
            hashes[partCount totalSize partSize]?.toList := List.take_add_one
      rw [hlast, ← hcount, List.take_length] at htake
      exact htake
    have htake : (hashes.take (partCount totalSize partSize)).length =
        partCount totalSize partSize := by
      rw [List.length_take]
      omega
    rw [if_neg (not_not.mpr htake)]
    constructor
    · intro h
      split at h
      · next hroot =>
        obtain rfl := Option.some.inj h
        exact ⟨htake, .inr ⟨hphantom, hsplit⟩, hroot⟩
      · cases h
    · rintro ⟨hlength, hsame | ⟨-, hsame⟩, hroot⟩
      · rw [hsame] at hcount
        omega
      · rw [hsame, ← hlength, List.take_left, if_pos hroot]
  · rw [if_neg htail]
    split
    · next hcount =>
      constructor
      · intro h
        cases h
      · rintro ⟨hlength, hsame | ⟨hphantom, hsame⟩, -⟩
        · exact absurd (hsame ▸ hlength) hcount
        · refine absurd ⟨?_, hphantom, ?_⟩ htail
          · rw [hsame, List.length_append, hlength]
            rfl
          · rw [hsame, ← hlength, List.getElem?_concat_length]
    · next hcount =>
      have hcount := not_not.mp hcount
      constructor
      · intro h
        split at h
        · next hroot =>
          obtain rfl := Option.some.inj h
          exact ⟨hcount, .inl rfl, hroot⟩
        · cases h
      · rintro ⟨hlength, hsame | ⟨-, hsame⟩, hroot⟩
        · rw [hsame, if_pos hroot]
        · rw [hsame, List.length_append, hlength] at hcount
          simp at hcount

end Roots

/-! ## The disk -/

section Disk

variable {hashPart} {partSize totalSize : Nat} {disk content : List UInt8}

/-- What is read of a part. -/
theorem take_filePart (hpart : 0 < partSize) (hfits : totalSize ≤ maxU64) {i : Nat}
    (hi : i < partCount totalSize partSize) :
    (disk.drop (partSpan i totalSize partSize).1).take
        ((partSpan i totalSize partSize).2 - (partSpan i totalSize partSize).1) =
      filePart (disk.take totalSize) partSize i := by
  rw [partSpan_eq hpart hfits hi, filePart, List.drop_take, List.take_take]
  dsimp only
  congr 1
  omega

private theorem mapM_some {α β : Type} {f : α → Option β} {g : α → β} {l : List α}
    (h : ∀ a ∈ l, f a = some (g a)) : l.mapM f = some (l.map g) := by
  induction l with
  | nil => rfl
  | cons a l ih =>
    rw [List.mapM_cons, h a List.mem_cons_self, ih fun b hb ↦ h b (List.mem_cons_of_mem a hb)]
    rfl

/-- A file that is long enough is read. -/
theorem diskHashes_of_le (hpart : 0 < partSize) (hfits : totalSize ≤ maxU64)
    (hread : totalSize ≤ disk.length) :
    diskHashes hashPart disk totalSize partSize =
      some (partHashes hashPart (disk.take totalSize) partSize) := by
  have hlength : (disk.take totalSize).length = totalSize := by
    rw [List.length_take]
    omega
  unfold diskHashes partHashes
  rw [hlength]
  apply mapM_some
  intro i hi
  have hi := List.mem_range.mp hi
  have hstop : ¬ disk.length < (partSpan i totalSize partSize).2 := by
    rw [partSpan_eq hpart hfits hi]
    dsimp only
    omega
  change (if disk.length < (partSpan i totalSize partSize).2 then none else _) = _
  rw [if_neg hstop, ← take_filePart hpart hfits hi]
  rfl

/-- Contents of one length have one root only if they are the same. -/
theorem fileRoot_inj (hlength : ∀ text, (hashPart text).length = 16) (hpart : 0 < partSize)
    (hcount : disk.length = content.length)
    (hinj : Set.InjOn hashPart
      (hashedFor hashPart content partSize ∪ hashedFor hashPart disk partSize)) :
    fileRoot hashPart disk partSize = fileRoot hashPart content partSize ↔ disk = content := by
  refine ⟨fun hsame ↦ ?_, fun hsame ↦ by rw [hsame]⟩
  have hdigest : ∀ (l : List Nat) (text : List UInt8), ∀ h ∈ l.map fun i ↦
      hashPart (filePart text partSize i), h.length = 16 := by
    intro l text h hmem
    obtain ⟨i, -, rfl⟩ := List.mem_map.mp hmem
    exact hlength _
  have hhashes : rootHashes hashPart disk partSize = rootHashes hashPart content partSize := by
    have hmany : (rootHashes hashPart disk partSize).length =
        (rootHashes hashPart content partSize).length := by
      unfold rootHashes
      rw [List.length_map, List.length_map, hcount]
    exact computeRoot_inj (hdigest _ _) (hdigest _ _) hmany
      (hinj (.inr (.inr rfl)) (.inl (.inr rfl))) hsame
  apply eq_of_filePart hpart hcount
  intro i hi
  unfold rootHashes at hhashes
  rw [hcount] at hhashes
  have hpartHash := List.map_inj_left.mp hhashes i (List.mem_range.mpr (hcount ▸ hi))
  exact hinj (.inr (.inl ⟨i, rfl⟩)) (.inl (.inl ⟨i, rfl⟩)) hpartHash

private theorem isSome_of_mapM {α β : Type} {f : α → Option β} {l : List α} {r : List β}
    (h : l.mapM f = some r) : ∀ a ∈ l, (f a).isSome := by
  induction l generalizing r with
  | nil => exact fun a ha ↦ absurd ha List.not_mem_nil
  | cons b l ih =>
    rw [List.mapM_cons] at h
    cases hb : f b with
    | none =>
      rw [hb] at h
      cases h
    | some x =>
      cases hl : l.mapM f with
      | none =>
        rw [hb, hl] at h
        cases h
      | some xs =>
        intro a ha
        rcases List.mem_cons.mp ha with rfl | ha
        · rw [hb]
          rfl
        · exact ih hl a ha

/-- What is read is all of the file. -/
theorem le_of_diskHashes (hpart : 0 < partSize) (hfits : totalSize ≤ maxU64) {onDisk : List Md4}
    (h : diskHashes hashPart disk totalSize partSize = some onDisk) :
    totalSize ≤ disk.length := by
  rcases Nat.eq_zero_or_pos totalSize with rfl | hsize
  · exact Nat.zero_le _
  have hbounds := partCount_bounds hsize hpart
  have hlast : partCount totalSize partSize - 1 < partCount totalSize partSize := by omega
  have hread := isSome_of_mapM h _ (List.mem_range.mpr hlast)
  have hstop : (partSpan (partCount totalSize partSize - 1) totalSize partSize).2 = totalSize := by
    rw [partSpan_eq hpart hfits hlast]
    have hall : (partCount totalSize partSize - 1) * partSize + partSize =
        partCount totalSize partSize * partSize := by
      rw [← Nat.succ_mul]
      congr 1
      omega
    dsimp only
    omega
  change (if disk.length < (partSpan (partCount totalSize partSize - 1) totalSize partSize).2 then
    none else _).isSome = true at hread
  split at hread
  · cases hread
  · omega

/-- The root of what is on disk is the link's exactly where the disk has the file. -/
theorem recomputed_iff (hlength : ∀ text, (hashPart text).length = 16)
    (hempty : hashPart [] = md4Empty) (hpart : 0 < partSize) (hfits : content.length ≤ maxU64)
    (hinj : Set.InjOn hashPart (hashedFor hashPart content partSize ∪
      hashedFor hashPart (disk.take content.length) partSize)) {onDisk : List Md4}
    (honDisk : diskHashes hashPart disk content.length partSize = some onDisk) :
    computeRoot hashPart (buildRootInput onDisk content.length partSize) =
        fileRoot hashPart content partSize ↔
      disk.take content.length = content := by
  have hread := le_of_diskHashes hpart hfits honDisk
  have hcount : (disk.take content.length).length = content.length := by
    rw [List.length_take]
    omega
  rw [diskHashes_of_le hpart hfits hread] at honDisk
  obtain rfl := Option.some.inj honDisk
  have hroot := fileRoot_inj hlength hpart hcount hinj
  rw [fileRoot, rootHashes_eq hempty, hcount] at hroot
  exact hroot

private theorem asChunks_flatten {hashes : List Md4} (hlength : ∀ h ∈ hashes, h.length = 16) :
    asChunks hashes.length hashes.flatten = hashes := by
  induction hashes with
  | nil => rfl
  | cons h hashes ih =>
    have hhead := hlength h List.mem_cons_self
    rw [List.length_cons, asChunks, List.flatten_cons, ← hhead, List.take_left, List.drop_left,
      ih fun h' hmem ↦ hlength h' (List.mem_cons_of_mem h hmem)]

private theorem length_flatten_of {hashes : List Md4} (hlength : ∀ h ∈ hashes, h.length = 16) :
    hashes.flatten.length = hashes.length * 16 := by
  induction hashes with
  | nil => rfl
  | cons h hashes ih =>
    rw [List.flatten_cons, List.length_append, hlength h List.mem_cons_self,
      ih fun h' hmem ↦ hlength h' (List.mem_cons_of_mem h hmem), List.length_cons]
    omega

private theorem badBlocks_self (hashes : List Md4) : badBlocks hashes hashes = [] := by
  unfold badBlocks
  rw [List.map_eq_nil_iff, List.filter_eq_nil_iff]
  rintro ⟨⟨h, h'⟩, i⟩ hmem
  have hmem := List.fst_mem_of_mem_zipIdx hmem
  rw [List.zip_eq_zipWith, List.zipWith_self] at hmem
  obtain ⟨h'', -, heq⟩ := List.mem_map.mp hmem
  cases heq
  simp

/-- A file smaller than a part is one part. -/
theorem partCount_of_lt (hsingle : totalSize < partSize) : partCount totalSize partSize = 1 := by
  rcases Nat.eq_zero_or_pos totalSize with rfl | hsize
  · rfl
  · have hrest : 0 < totalSize % partSize := by rwa [Nat.mod_eq_of_lt hsingle]
    rw [partCount_of_not_dvd hrest, Nat.div_eq_of_lt hsingle]

/-- The root of a file of less than a part is the hash of it. -/
theorem head?_iff (hsingle : totalSize < partSize) {hashes : List Md4} {root : Md4}
    (hcount : hashes.length = partCount totalSize partSize) :
    hashes.head? = some root ↔
      computeRoot hashPart (buildRootInput hashes totalSize partSize) = root := by
  rw [partCount_of_lt hsingle] at hcount
  obtain ⟨h, rfl⟩ := List.length_eq_one_iff.mp hcount
  have hplain : buildRootInput [h] totalSize partSize = [h] := by
    have hphantom : ¬ isPhantomTail totalSize partSize = true := by
      rw [isPhantomTail_iff, Nat.mod_eq_of_lt hsingle]
      omega
    exact if_neg hphantom
  rw [hplain, computeRoot, List.head?_cons, Option.some.injEq]

/-- When the final check passes. -/
theorem finalizeAndVerify_ok {hashset : Except Unit (Option (List UInt8))} {writes : Bool}
    {rootHash : Md4} :
    (finalizeAndVerify hashPart hashset writes disk rootHash totalSize partSize).2 = .ok () ↔
      ∃ onDisk, diskHashes hashPart disk totalSize partSize = some onDisk ∧
        if totalSize < partSize then onDisk.head? = some rootHash
        else ∃ blob, hashset = .ok (some blob) ∧
          blob.length = partCount totalSize partSize * 16 ∧
            badBlocks onDisk (asChunks (blob.length / 16) blob) = [] ∧
              computeRoot hashPart (buildRootInput onDisk totalSize partSize) = rootHash := by
  have hrefused : ∀ update text, (if writes then
      (some update, Except.error (.ed2kIntegrity text)) else (none, .error .db) :
        Option BlocksUpdate × Except FinalizeError Unit).2 ≠ .ok () := by
    intro update text
    split
    · exact fun h ↦ by cases h
    · exact fun h ↦ by cases h
  unfold finalizeAndVerify isSingleBlock
  cases hread : diskHashes hashPart disk totalSize partSize with
  | none => simp
  | some onDisk =>
    simp only [Option.some.injEq, exists_eq_left', decide_eq_true_eq]
    by_cases hsingle : totalSize < partSize
    · simp only [hsingle, if_true]
      by_cases hhead : onDisk.head? = some rootHash
      · simp [hhead]
      · simp only [hhead, ne_eq, not_false_eq_true, if_true, iff_false]
        exact hrefused _ _
    · simp only [hsingle, if_false]
      match hashset with
      | .error () => simp
      | .ok none => simp
      | .ok (some blob) =>
        simp only [Except.ok.injEq, Option.some.injEq, exists_eq_left']
        generalize badBlocks onDisk (asChunks (blob.length / 16) blob) = bad
        by_cases hlength : blob.length = partCount totalSize partSize * 16
        · by_cases hbad : bad = []
          · by_cases hroot : computeRoot hashPart (buildRootInput onDisk totalSize partSize) =
                rootHash
            · simp [hlength, hbad, hroot]
            · simp only [hlength, hbad, hroot, ne_eq, not_true_eq_false, not_false_eq_true,
                if_true, if_false, and_false, iff_false]
              exact hrefused _ _
          · simp only [hlength, hbad, ne_eq, not_true_eq_false, not_false_eq_true, if_true,
              if_false, false_and, and_false, iff_false]
            exact hrefused _ _
        · simp [hlength]

/-- The final check passes with the stored hashset exactly where the disk has the file. -/
theorem finalize_iff (hlength : ∀ text, (hashPart text).length = 16)
    (hempty : hashPart [] = md4Empty) (hpart : 0 < partSize) (hfits : content.length ≤ maxU64)
    (hinj : Set.InjOn hashPart (hashedFor hashPart content partSize ∪
      hashedFor hashPart (disk.take content.length) partSize)) (writes : Bool) :
    (finalizeAndVerify hashPart (.ok (some (partHashes hashPart content partSize).flatten)) writes
        disk (fileRoot hashPart content partSize) content.length partSize).2 = .ok () ↔
      disk.take content.length = content := by
  have hdigest : ∀ h ∈ partHashes hashPart content partSize, h.length = 16 :=
    length_mem_partHashes hlength
  rw [finalizeAndVerify_ok]
  constructor
  · rintro ⟨onDisk, honDisk, hpasses⟩
    have hread := le_of_diskHashes hpart hfits honDisk
    apply (recomputed_iff hlength hempty hpart hfits hinj honDisk).mp
    split at hpasses
    · next hsingle =>
      refine (head?_iff hsingle ?_).mp hpasses
      rw [diskHashes_of_le hpart hfits hread] at honDisk
      rw [← Option.some.inj honDisk, length_partHashes, List.length_take, Nat.min_eq_left hread]
    · obtain ⟨-, -, -, -, hroot⟩ := hpasses
      exact hroot
  · intro hsame
    have hread : content.length ≤ disk.length := by
      rw [← hsame, List.length_take]
      exact Nat.min_le_right _ _
    have honDisk : diskHashes hashPart disk content.length partSize =
        some (partHashes hashPart content partSize) := by
      rw [diskHashes_of_le hpart hfits hread, hsame]
    have hroot := (recomputed_iff hlength hempty hpart hfits hinj honDisk).mpr hsame
    refine ⟨_, honDisk, ?_⟩
    split
    · next hsingle => exact (head?_iff hsingle length_partHashes).mpr hroot
    · have hblob := length_flatten_of hdigest
      refine ⟨_, rfl, by rw [hblob, length_partHashes], ?_, hroot⟩
      rw [hblob, Nat.mul_div_cancel _ (by decide), asChunks_flatten hdigest, badBlocks_self]

end Disk

/-- A hashset is accepted exactly where it is the part hashes, with or without the empty part of a
multiple, and gives the part hashes; the spans of the parts tile the file; and the final check
recomputes the root exactly from a disk that has the file. A file of `maxU64` bytes is left out:
in parts of one byte the number of its hashes and the empty one is not a number of 64 bits. -/
theorem hashset_exact (hlength : ∀ text, (hashPart text).length = 16)
    (hempty : hashPart [] = md4Empty) (content : List UInt8) (partSize : Nat)
    (hpart : 0 < partSize) (hsmall : content.length < maxU64) :
    (∀ hashes : List Md4, (∀ h ∈ hashes, h.length = 16) → partSize ≤ content.length →
      Set.InjOn hashPart {(rootHashes hashPart content partSize).flatten,
        (buildRootInput (hashes.take (partCount content.length partSize)) content.length
          partSize).flatten} →
      ∀ h, normalizeHashset hashPart hashes (fileRoot hashPart content partSize) content.length
          partSize = some h ↔
        (hashes = partHashes hashPart content partSize ∨ partSize ∣ content.length ∧
          hashes = partHashes hashPart content partSize ++ [md4Empty]) ∧
            h = partHashes hashPart content partSize) ∧
    (0 < content.length →
      Tiles ((List.range (partCount content.length partSize)).map fun i ↦
        spanOf (partSpan i content.length partSize)) 0 content.length ∧
      ∀ i < partCount content.length partSize, (partSpan i content.length partSize).2 ≤
        (partSpan i content.length partSize).1 + partSize) ∧
    ∀ disk : List UInt8, Set.InjOn hashPart (hashedFor hashPart content partSize ∪
        hashedFor hashPart (disk.take content.length) partSize) →
      (∀ onDisk, diskHashes hashPart disk content.length partSize = some onDisk →
        (computeRoot hashPart (buildRootInput onDisk content.length partSize) =
            fileRoot hashPart content partSize ↔
          disk.take content.length = content)) ∧
      ∀ writes, (finalizeAndVerify hashPart
          (.ok (some (partHashes hashPart content partSize).flatten)) writes disk
          (fileRoot hashPart content partSize) content.length partSize).2 = .ok () ↔
        disk.take content.length = content := by
  have hfits := hsmall.le
  refine ⟨fun hashes hhashes hmany hinj h ↦ ?_, fun hsize ↦ ⟨?_, fun i hi ↦ ?_⟩, fun disk hinj ↦
    ⟨fun onDisk ↦ recomputed_iff hlength hempty hpart hfits hinj,
      finalize_iff hlength hempty hpart hfits hinj⟩⟩
  · have hphantom : isPhantomTail content.length partSize = true ↔ partSize ∣ content.length := by
      rw [isPhantomTail_iff, Nat.dvd_iff_mod_eq_zero]
      exact and_iff_right (by omega)
    rw [normalizeHashset_eq_some, hphantom]
    constructor
    · rintro ⟨hcount, hsame, hroot⟩
      have hkept : hashes.take (partCount content.length partSize) = h := by
        rcases hsame with rfl | ⟨-, rfl⟩
        · rw [← hcount, List.take_length]
        · rw [← hcount, List.take_left]
      rw [hkept] at hinj
      have hdigest : ∀ h' ∈ h, h'.length = 16 := fun h' hmem ↦
        hhashes h' (List.mem_of_mem_take (hkept ▸ hmem))
      obtain rfl := (root_iff hlength hempty hdigest hcount hinj).mp hroot
      exact ⟨hsame, rfl⟩
    · rintro ⟨hsame, rfl⟩
      refine ⟨length_partHashes, hsame, ?_⟩
      rw [fileRoot, rootHashes_eq hempty]
  · have hall := (partCount_bounds hsize hpart).2.1
    have hchain := chain_partSpan hpart hfits hsize (Nat.le_refl _)
    rw [Nat.min_eq_right hall] at hchain
    exact hchain.tiles
  · rw [partSpan_eq hpart hfits hi]
    exact Nat.min_le_left _ _

/-- The hash of three bytes, and the root of a file of them in parts of three. -/
def abcMd4 : Md4 :=
  [0xa4, 0x48, 0x01, 0x7a, 0xaf, 0x21, 0xd8, 0x52, 0x5f, 0xc1, 0x0a, 0xe8, 0x7a, 0xa6, 0x72, 0x9d]

/-- MD4 on the texts of that file. -/
def tableMd4 (text : List UInt8) : Md4 :=
  if text = [97, 98, 99] then abcMd4
  else if text = abcMd4 ++ md4Empty then
    [0x8b, 0x51, 0xde, 0x98, 0x72, 0xe6, 0xc0, 0x6d, 0x79, 0xbf, 0xf7, 0xf9, 0x20, 0xd0, 0x8a, 0xa5]
  else md4Empty

/-- The hash of the table has 16 bytes. -/
theorem length_tableMd4 (text : List UInt8) : (tableMd4 text).length = 16 := by
  unfold tableMd4
  split
  · rfl
  · split
    · rfl
    · rfl

/-- A peer that sends the empty part of the file is understood. -/
theorem hashset_exact_sample :
    normalizeHashset tableMd4 [abcMd4, md4Empty] (fileRoot tableMd4 [97, 98, 99] 3) 3 3 =
      some [abcMd4] := by
  have hinputs : (buildRootInput [abcMd4] 3 3).flatten =
      (rootHashes tableMd4 [97, 98, 99] 3).flatten := by decide +kernel
  apply ((hashset_exact tableMd4 length_tableMd4 (by decide) [97, 98, 99] 3 (by decide)
    (by decide)).1 [abcMd4, md4Empty] (by decide) (by decide) (by
      change Set.InjOn tableMd4 {_, (buildRootInput [abcMd4] 3 3).flatten}
      rw [hinputs, Set.pair_eq_singleton]
      exact Set.injOn_singleton _ _) [abcMd4]).mpr
  exact ⟨.inr ⟨by decide, by decide⟩, by decide⟩

end Ed2k
