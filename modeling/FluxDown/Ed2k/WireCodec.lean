import FluxDown.Base.Fallible
import FluxDown.Ed2k.Wire

/-!
# What is written is read, and nothing else is assumed

Library `Ed2k`. A frame that is written is read back from any pieces, as long as its size fits the
field of 32 bits that counts the opcode as well. Requests for ranges of a file of any size that a
link may have are read back. No stream and no payload make the readers leave their bounds.
-/

namespace Ed2k.Wire

open Base

variable {α β : Type}

/-! ## Numbers -/

/-- A number has its bytes. -/
@[simp] theorem length_leBytes (width n : Nat) : (leBytes width n).length = width := by
  induction width generalizing n with
  | zero => rfl
  | succ width ih => simp [leBytes, ih]

/-- The bytes of a number say what it is, up to their width. -/
theorem leNat_leBytes (width n : Nat) : leNat (leBytes width n) = n % 256 ^ width := by
  induction width generalizing n with
  | zero => simp [leBytes, leNat, Nat.mod_one]
  | succ width ih =>
    have hbyte : (UInt8.ofNat (n % 256)).toNat = n % 256 := by
      simp
    rw [leBytes, leNat, ih, hbyte, Nat.pow_succ, Nat.mul_comm (256 ^ width) 256, Nat.mod_mul]

/-- The bytes of a slice, one after the other. -/
theorem mapM_byteAt (slice : List UInt8) :
    (List.range slice.length).mapM (byteAt slice) = .ok slice := by
  have hbyte : ∀ i ∈ List.range slice.length, byteAt slice i = .ok (slice.getD i 0) := by
    intro i hi
    rw [List.mem_range] at hi
    simp [byteAt, hi]
  rw [mapM_eq_ok hbyte]
  congr 1
  apply List.ext_getElem
  · simp
  · intro i hi hi'
    simp [hi']

private theorem getRange_append {before slice after : List UInt8} {start stop : Nat}
    (hstart : before.length = start) (hstop : start + slice.length = stop) :
    getRange (before ++ slice ++ after) start stop = some slice := by
  have hfits : start ≤ stop ∧ stop ≤ (before ++ slice ++ after).length := by
    simp only [List.length_append]
    omega
  rw [getRange, if_pos hfits, List.append_assoc, ← hstart, List.drop_left, ← hstop, hstart,
    Nat.add_sub_cancel_left, List.take_left]

/-- A number is read where it was written. -/
theorem readNumber_append {before after : List UInt8} {width n off : Nat} {name : String}
    (hoff : before.length = off) (hn : n < 256 ^ width) (hword : off + width ≤ maxU64) :
    readNumber width name (before ++ leBytes width n ++ after) off = .ok n := by
  have hslice : getRange (before ++ leBytes width n ++ after) off (off + width) =
      some (leBytes width n) := getRange_append hoff (by simp)
  have hbytes := mapM_byteAt (leBytes width n)
  rw [length_leBytes] at hbytes
  rw [readNumber, addUsize, if_pos hword]
  simp only [bind, Except.bind, hslice, okOr, Option.elim_some]
  rw [show (List.range width).mapM (byteAt (leBytes width n)) = _ from hbytes]
  simp only [leNat_leBytes, Nat.mod_eq_of_lt hn]

/-! ## Frames -/

/-- The head of a frame is checked as it was written. -/
theorem checkHead_append {proto opcode : UInt8} {payloadLen maxPayloadLen : Nat}
    (hproto : proto = protoEdonkey ∨ proto = protoEmule) (hmax : payloadLen ≤ maxPayloadLen)
    (hsize : payloadLen < maxU32) :
    checkHead ([proto] ++ leBytes 4 (payloadLen + 1) ++ [opcode]) maxPayloadLen =
      .ok (proto, opcode, payloadLen) := by
  generalize hbytes : leBytes 4 (payloadLen + 1) = bytes
  have hnat : leNat bytes = payloadLen + 1 := by
    rw [← hbytes, leNat_leBytes, Nat.mod_eq_of_lt]
    have hpow : maxU32 + 1 = 256 ^ 4 := by decide
    omega
  have hlength : bytes.length = 4 := by rw [← hbytes, length_leBytes]
  obtain ⟨b₁, b₂, b₃, b₄, rfl⟩ := List.length_eq_four.mp hlength
  have hlegal : ¬ (proto ≠ protoEdonkey ∧ proto ≠ protoEmule ∧ proto ≠ protoPacked) := by
    rintro ⟨hedonkey, hemule, -⟩
    exact hproto.elim hedonkey hemule
  have hbytes : [1, 2, 3, 4].mapM (byteAt [proto, b₁, b₂, b₃, b₄, opcode]) =
      .ok [b₁, b₂, b₃, b₄] := rfl
  have hfirst : byteAt [proto, b₁, b₂, b₃, b₄, opcode] 0 = .ok proto := rfl
  have hlast : byteAt [proto, b₁, b₂, b₃, b₄, opcode] 5 = .ok opcode := rfl
  simp only [checkHead, List.cons_append, List.nil_append, hfirst, hbytes, hlast, bind, Except.bind,
    if_neg hlegal, hnat]
  rw [if_neg (Nat.succ_ne_zero _), subU32, if_pos (Nat.le_add_left 1 payloadLen)]
  simp only [Nat.add_sub_cancel]
  rw [if_neg (Nat.not_lt_of_le hmax)]

/-- A frame that is written is read back, wherever the pieces of the stream end. -/
theorem readFrame_frameWithProto (zlib : List UInt8 → List (Arrival UInt8)) {proto opcode : UInt8}
    {payload rest : List UInt8} {stream : List (Arrival UInt8)} {maxPayloadLen : Nat}
    (hproto : proto = protoEdonkey ∨ proto = protoEmule) (hmax : payload.length ≤ maxPayloadLen)
    (hsize : payload.length < maxU32)
    (hstream : Chunked (frameWithProto proto opcode payload ++ rest) stream) :
    ∃ stream', Chunked rest stream' ∧ readFrame zlib stream maxPayloadLen =
      ⟨.ok (proto, opcode, payload), stream', [payload.length]⟩ := by
  have hword : (payload.length % 2 ^ 32 + 1) % 2 ^ 32 = payload.length + 1 := by
    unfold maxU32 at hsize
    omega
  rw [frameWithProto, hword, List.append_assoc] at hstream
  obtain ⟨stream₁, hstream₁, hhead⟩ := hstream.readExact_append
  obtain ⟨stream₂, hstream₂, hpayload⟩ := hstream₁.readExact_append
  have hsix : ([proto] ++ leBytes 4 (payload.length + 1) ++ [opcode]).length = 6 := by simp
  rw [hsix] at hhead
  have hplain : proto ≠ protoPacked := by
    rintro rfl
    revert hproto
    decide
  refine ⟨stream₂, hstream₂, ?_⟩
  rw [readFrame, hhead]
  simp only [checkHead_append hproto hmax hsize, hpayload, if_neg hplain]

/-! ## Requests -/

namespace RequestParts

private theorem length_offsetBytes (largeFile : Bool) (values : Fin 3 → Nat) :
    (offsetBytes largeFile values).length = 3 * offsetLen largeFile := by
  simp [offsetBytes, List.finRange_succ]
  omega

/-- Three offsets are read where they were written. -/
theorem readOffsets_append {before after : List UInt8} {largeFile : Bool} {values : Fin 3 → Nat}
    {base : Nat} (hbase : before.length = base) (hsmall : base ≤ 64)
    (hvalues : ∀ i, values i < 256 ^ offsetLen largeFile) :
    readOffsets (before ++ offsetBytes largeFile values ++ after) largeFile base = .ok values := by
  have hwidth : offsetLen largeFile ≤ 8 := by cases largeFile <;> decide
  have hmax : 88 ≤ maxU64 := by decide
  -- Each of the three numbers stands between the bytes before it and those after it.
  have hread (i : Fin 3) (front back : List UInt8) (off : Nat)
      (hsplit : before ++ offsetBytes largeFile values ++ after =
        front ++ leBytes (offsetLen largeFile) (values i) ++ back) (hoff : front.length = off)
      (hle : off ≤ 80) :
      readOffset largeFile (before ++ offsetBytes largeFile values ++ after) off off =
        .ok (values i) := by
    rw [hsplit]
    cases largeFile with
    | true => exact readNumber_append hoff (hvalues i) (by omega)
    | false => exact readNumber_append hoff (hvalues i) (by omega)
  have hbytes : offsetBytes largeFile values = leBytes (offsetLen largeFile) (values 0) ++
      (leBytes (offsetLen largeFile) (values 1) ++ leBytes (offsetLen largeFile) (values 2)) := by
    simp [offsetBytes, List.finRange_succ]
  have h₀ := hread 0 before (leBytes (offsetLen largeFile) (values 1) ++
    leBytes (offsetLen largeFile) (values 2) ++ after) base (by simp [hbytes]) hbase (by omega)
  have h₁ := hread 1 (before ++ leBytes (offsetLen largeFile) (values 0))
    (leBytes (offsetLen largeFile) (values 2) ++ after) (base + offsetLen largeFile)
    (by simp [hbytes]) (by simp [hbase]) (by omega)
  have h₂ := hread 2 (before ++ leBytes (offsetLen largeFile) (values 0) ++
    leBytes (offsetLen largeFile) (values 1)) after (base + 2 * offsetLen largeFile)
    (by simp [hbytes]) (by simp [hbase]; omega) (by omega)
  have hfin : ![values 0, values 1, values 2] = values := by
    ext i
    fin_cases i <;> rfl
  simp only [readOffsets, h₀, h₁, h₂, bind, Except.bind, hfin]

/-- A slot is told from an empty one by its end. -/
theorem slot_of_range (range : Option PartRange) (h : ∀ r ∈ range, 0 < r.endExclusive) :
    slot (range.elim 0 PartRange.start) (range.elim 0 PartRange.endExclusive) = range := by
  cases range with
  | none => rfl
  | some r =>
    have hpos := h r rfl
    rw [slot, if_neg (fun hzero ↦ absurd hzero.2 (by simp; omega))]
    rfl

/-- A request whose ranges end after zero and fit their fields is read back. -/
theorem decode_encode {r : RequestParts}
    (h : ∀ i, ∀ range ∈ r.ranges i, 0 < range.endExclusive ∧
      range.start < 256 ^ offsetLen r.largeFile ∧ range.endExclusive < 256 ^ offsetLen r.largeFile) :
    decode r.encode.2 r.largeFile = .ok r := by
  have hpos : 0 < 256 ^ offsetLen r.largeFile := Nat.pow_pos (by decide)
  have hstarts : ∀ i, r.starts i < 256 ^ offsetLen r.largeFile := by
    intro i
    unfold starts
    cases hrange : r.ranges i with
    | none => exact hpos
    | some range => exact (h i range hrange).2.1
  have hends : ∀ i, r.ends i < 256 ^ offsetLen r.largeFile := by
    intro i
    unfold ends
    cases hrange : r.ranges i with
    | none => exact hpos
    | some range => exact (h i range hrange).2.2
  have hhash : readHash16 r.encode.2 0 = .ok r.fileHash := by
    have hslice : getRange ([] ++ r.fileHash.val ++ (offsetBytes r.largeFile r.starts ++
        offsetBytes r.largeFile r.ends)) 0 16 = some r.fileHash.val :=
      getRange_append rfl (by rw [Nat.zero_add, r.fileHash.property])
    rw [List.nil_append, ← List.append_assoc] at hslice
    have hword : 0 + 16 ≤ maxU64 := by decide
    simp only [readHash16, encode, addUsize, if_pos hword, bind, Except.bind, Nat.zero_add, hslice,
      Option.bind_some, toHash16, r.fileHash.property, dif_pos, okOr, Option.elim_some]
  have hread₁ : readOffsets r.encode.2 r.largeFile 16 = .ok r.starts :=
    readOffsets_append r.fileHash.property (by decide) hstarts
  have hread₂ : readOffsets r.encode.2 r.largeFile (16 + 3 * offsetLen r.largeFile) =
      .ok r.ends := by
    have hlength : (r.fileHash.val ++ offsetBytes r.largeFile r.starts).length =
        16 + 3 * offsetLen r.largeFile := by
      rw [List.length_append, r.fileHash.property, length_offsetBytes]
    have hwidth : offsetLen r.largeFile ≤ 8 := by cases r.largeFile <;> decide
    have happend := @readOffsets_append _ [] r.largeFile r.ends _ hlength (by omega) hends
    rwa [List.append_nil] at happend
  have hslots : (fun i ↦ slot (r.starts i) (r.ends i)) = r.ranges := by
    ext1 i
    exact slot_of_range (r.ranges i) fun range hrange ↦ (h i range hrange).1
  simp only [decode, hhash, hread₁, hread₂, bind, Except.bind, hslots]

end RequestParts

/-! ## Nothing leaves its bounds -/

/-- The call does not panic. -/
def Safe (x : Outcome α) : Prop := x ≠ .error .panicked

namespace Safe

/-- A result is safe. -/
theorem ok (a : α) : Safe (.ok a : Outcome α) := by
  rintro ⟨⟩

/-- An error is safe. -/
theorem fail (text : String) : Safe (fail text : Outcome α) := by
  rintro ⟨⟩

/-- A sequence of safe parts is safe. -/
theorem bind {x : Outcome α} {f : α → Outcome β} (h : Safe x) (hf : ∀ a, x = .ok a → Safe (f a)) :
    Safe (x >>= f) := by
  cases x with
  | error e => exact fun hpanic ↦ h (congrArg _ (Except.error.inj hpanic))
  | ok a => exact hf a rfl

/-- A mapped outcome is as safe. -/
theorem map {x : Outcome α} {f : α → β} (h : Safe x) : Safe (f <$> x) := by
  cases x with
  | error e => exact fun hpanic ↦ h (congrArg _ (Except.error.inj hpanic))
  | ok a => exact ok (f a)

/-- A missing value is an error. -/
theorem okOr (value : Option α) (text : String) : Safe (okOr value text) := by
  cases value with
  | none => exact fail text
  | some a => exact ok a

/-- Reading many is safe when reading each is. -/
theorem mapM {f : α → Outcome β} {l : List α} (h : ∀ a ∈ l, Safe (f a)) : Safe (l.mapM f) := by
  induction l with
  | nil => exact ok []
  | cons a l ih =>
    rw [List.forall_mem_cons] at h
    rw [List.mapM_cons]
    exact bind h.1 fun b _ ↦ bind (ih h.2) fun bs _ ↦ ok (b :: bs)

/-- A sum that fits is safe. -/
theorem addUsize {a b : Nat} (h : a + b ≤ maxU64) : Safe (addUsize a b) := by
  rw [Wire.addUsize, if_pos h]
  exact ok _

/-- A product that fits is safe. -/
theorem mulUsize {a b : Nat} (h : a * b ≤ maxU64) : Safe (mulUsize a b) := by
  rw [Wire.mulUsize, if_pos h]
  exact ok _

private theorem byteAt {buf : List UInt8} {i : Nat} (h : i < buf.length) : Safe (byteAt buf i) := by
  rw [Wire.byteAt, List.getElem?_eq_getElem h]
  exact ok _

/-- A choice of safe outcomes is safe. -/
theorem ite {c : Prop} [Decidable c] {x y : Outcome α} (hx : Safe x) (hy : Safe y) :
    Safe (if c then x else y) := by
  split
  · exact hx
  · exact hy

end Safe

private theorem addUsize_eq_ok {a b n : Nat} (h : addUsize a b = .ok n) : n = a + b := by
  unfold addUsize at h
  split at h
  · exact (Except.ok.inj h).symm
  · cases h

private theorem mulUsize_eq_ok {a b n : Nat} (h : mulUsize a b = .ok n) : n = a * b := by
  unfold mulUsize at h
  split at h
  · exact (Except.ok.inj h).symm
  · cases h

private theorem length_of_getRange {buf slice : List UInt8} {start stop : Nat}
    (h : getRange buf start stop = some slice) : slice.length = stop - start := by
  unfold getRange at h
  split at h
  · next hfits =>
    rw [← Option.some.inj h, List.length_take, List.length_drop]
    omega
  · cases h

private theorem okOr_eq_ok {value : Option α} {text : String} {a : α}
    (h : okOr value text = .ok a) :
    value = some a := by
  cases value with
  | none => cases h
  | some b => rw [Except.ok.inj h]

private theorem safe_readNumber {width off : Nat} (name : String) (buf : List UInt8)
    (h : off + width ≤ maxU64) : Safe (readNumber width name buf off) := by
  refine .bind (.addUsize h) fun stop hstop ↦ .bind (.okOr _ _) fun slice hslice ↦
    .bind (.mapM fun i hi ↦ .byteAt ?_) fun bytes _ ↦ .ok _
  rw [length_of_getRange (okOr_eq_ok hslice), addUsize_eq_ok hstop, Nat.add_sub_cancel_left]
  exact List.mem_range.mp hi

private theorem safe_readHash16 (buf : List UInt8) {off : Nat} (h : off + 16 ≤ maxU64) :
    Safe (readHash16 buf off) :=
  .bind (.addUsize h) fun _ _ ↦ .okOr _ _

/-- Of two bytes, a number below 2^16 is read. -/
theorem lt_of_readU16Le {buf : List UInt8} {off n : Nat} (h : readU16Le buf off = .ok n) :
    n < 65536 := by
  obtain ⟨stop, hstop, h⟩ := bind_eq_ok.mp h
  obtain ⟨slice, hslice, h⟩ := bind_eq_ok.mp h
  obtain ⟨bytes, hbytes, h⟩ := bind_eq_ok.mp h
  have hlength : slice.length = 2 := by
    rw [length_of_getRange (okOr_eq_ok hslice), addUsize_eq_ok hstop]
    omega
  have hslice := mapM_byteAt slice
  rw [hlength, hbytes] at hslice
  have hlt := leNat_lt slice
  rwa [hlength, ← Except.ok.inj hslice, Except.ok.inj h] at hlt

private theorem safe_readOffset (large : Bool) (payload : List UInt8) {wide narrow : Nat}
    (hwide : wide ≤ 64) (hnarrow : narrow ≤ 64) : Safe (readOffset large payload wide narrow) := by
  have hmax : 128 ≤ maxU64 := by decide
  exact .ite (safe_readNumber _ _ (by omega)) (safe_readNumber _ _ (by omega))

section Messages

variable (payload : List UInt8)

private theorem small {n : Nat} (h : n ≤ 2 ^ 32) : n ≤ maxU64 := by
  have hmax : 2 ^ 32 ≤ maxU64 := by decide
  omega

private theorem safe_decodeServerMessage : Safe (decodeServerMessage payload) := by
  refine .bind (safe_readNumber _ _ (small (by decide))) fun len hlen ↦
    .bind (.addUsize (small ?_)) fun stop _ ↦ .bind (.okOr _ _) fun text _ ↦ .ok _
  have hlt := lt_of_readU16Le hlen
  omega

private theorem safe_readSource {i : Nat} (h : i < 256) : Safe (readSource payload i) := by
  refine .bind (.mulUsize (small (by omega))) fun off₁ hoff₁ ↦ ?_
  have hmul := mulUsize_eq_ok hoff₁
  refine .bind (.addUsize (small (by omega))) fun off₂ hoff₂ ↦ ?_
  have hadd := addUsize_eq_ok hoff₂
  refine .bind (safe_readNumber _ _ (small (by omega))) fun id _ ↦
    .bind (.addUsize (small (by omega))) fun portOff hport ↦ ?_
  have hadd' := addUsize_eq_ok hport
  exact .bind (safe_readNumber _ _ (small (by omega))) fun port _ ↦ .ok _

private theorem safe_decodeFoundSources : Safe (decodeFoundSources payload) := by
  refine .bind (safe_readHash16 _ (small (by decide))) fun fileHash _ ↦
    .bind (.okOr _ _) fun count _ ↦ ?_
  have hcount := count.toNat_lt
  refine .bind (.mulUsize (small (by omega))) fun expected hmul ↦ ?_
  have hexpected := mulUsize_eq_ok hmul
  refine .bind (.addUsize (small (by omega))) fun _ _ ↦ .ite (.fail _) ?_
  refine .bind (.mapM fun i hi ↦ safe_readSource payload ?_) fun _ _ ↦ .ok _
  have hi := List.mem_range.mp hi
  omega

private theorem safe_decodeFileStatus : Safe (decodeFileStatus payload) := by
  refine .bind (safe_readHash16 _ (small (by decide))) fun fileHash _ ↦
    .bind (safe_readNumber _ _ (small (by decide))) fun partCount hcount ↦
    .bind (.addUsize (small ?_)) fun _ _ ↦ .bind (.okOr _ _) fun _ _ ↦ .ok _
  have hlt := lt_of_readU16Le hcount
  omega

private theorem safe_readPartHash {i : Nat} (h : i < 65536) : Safe (readPartHash payload i) := by
  refine .bind (.mulUsize (small (by omega))) fun off₁ hoff₁ ↦ ?_
  have hmul := mulUsize_eq_ok hoff₁
  refine .bind (.addUsize (small (by omega))) fun off₂ hoff₂ ↦ ?_
  have hadd := addUsize_eq_ok hoff₂
  exact safe_readHash16 _ (small (by omega))

private theorem safe_decodeHashSetAnswer : Safe (decodeHashSetAnswer payload) := by
  refine .bind (safe_readNumber _ _ (small (by decide))) fun count hcount ↦ ?_
  have hlt := lt_of_readU16Le hcount
  refine .bind (.mulUsize (small (by omega))) fun expected hmul ↦ ?_
  have hexpected := mulUsize_eq_ok hmul
  refine .bind (.addUsize (small (by omega))) fun _ _ ↦ .ite (.fail _) ?_
  refine .bind (.mapM fun i hi ↦ safe_readPartHash payload ?_) fun _ _ ↦ .ok _
  have hi := List.mem_range.mp hi
  omega

private theorem safe_decodeSendingPart (large : Bool) : Safe (decodeSendingPart payload large) :=
  .bind (safe_readHash16 _ (small (by decide))) fun _ _ ↦
    .bind (safe_readOffset large payload (by decide) (by decide)) fun _ _ ↦
    .bind (safe_readOffset large payload (by decide) (by decide)) fun _ _ ↦
    .bind (.okOr _ _) fun _ _ ↦ .ok _

private theorem safe_decodeCompressedPart (large : Bool) :
    Safe (decodeCompressedPart payload large) :=
  .bind (safe_readHash16 _ (small (by decide))) fun _ _ ↦
    .bind (safe_readOffset large payload (by decide) (by decide)) fun _ _ ↦
    .bind (.okOr _ _) fun _ _ ↦ .ok _

private theorem safe_dispatchEmule (opcode : UInt8) : Safe (dispatchEmule opcode payload) :=
  .ite (safe_decodeCompressedPart payload false) <| .ite (safe_decodeCompressedPart payload true) <|
    .ite (safe_decodeSendingPart payload true) <|
    .ite (.map (safe_readNumber _ _ (small (by decide)))) (.ok _)

/-- No payload makes the decoding of a message leave its bounds. -/
theorem safe_dispatch (proto opcode : UInt8) (largeFile : Bool) :
    Safe (dispatch proto opcode payload largeFile) := by
  have hnumber : Safe (readU32Le payload 0) := safe_readNumber _ _ (small (by decide))
  have hhash : Safe (readHash16 payload 0) := safe_readHash16 _ (small (by decide))
  exact .ite (safe_dispatchEmule payload opcode) <| .ite hnumber.map <| .ite (.ok _) <|
    .ite (.ok _) <| .ite (safe_decodeServerMessage payload) <|
    .ite (safe_decodeFoundSources payload) <| .ite hhash.map <|
    .ite (safe_decodeFileStatus payload) <| .ite hhash.map <|
    .ite (safe_decodeHashSetAnswer payload) <| .ite (safe_decodeSendingPart payload false) <|
    .ite hnumber.map <| .ite (.ok _) (.ok _)

end Messages

/-- A read of the decoder fits its buffer. -/
def FitsBuffer (zlib : List UInt8 → List (Arrival UInt8)) : Prop :=
  ∀ input bytes, .data bytes ∈ zlib input → bytes.length ≤ inflateBuffer

/-- Inflating keeps within the bound. -/
theorem inflateLoop_bounded {maxOutput : Nat} (hmax : maxOutput ≤ maxU32)
    {reads : List (Arrival UInt8)} {out : List UInt8}
    (hreads : ∀ bytes, .data bytes ∈ reads → bytes.length ≤ inflateBuffer)
    (hout : out.length ≤ maxOutput) :
    Safe (inflateLoop maxOutput reads out).1 ∧ (inflateLoop maxOutput reads out).2 ≤ maxOutput := by
  induction reads generalizing out with
  | nil => exact ⟨.ok _, hout⟩
  | cons read reads ih =>
    cases read with
    | failed text => exact ⟨.fail _, hout⟩
    | data bytes =>
      have hbytes := hreads bytes List.mem_cons_self
      have hword : out.length + bytes.length ≤ maxU64 := by
        have hlimit : maxU32 + inflateBuffer ≤ maxU64 := by decide
        omega
      rw [inflateLoop, addUsize, if_pos hword]
      split
      · exact ⟨.ok _, hout⟩
      · dsimp only
        split
        · exact ⟨.fail _, hout⟩
        · next hfits =>
          rw [if_neg (Nat.not_lt_of_le hbytes)]
          apply ih fun bytes' hmem ↦ hreads bytes' (List.mem_cons_of_mem _ hmem)
          rw [List.length_append]
          omega

/-- The head of a frame gives a payload within the bound, or an error. -/
theorem checkHead_bounded {head : List UInt8} {maxPayloadLen : Nat} (h : head.length = 6) :
    Safe (checkHead head maxPayloadLen) ∧
      ∀ proto opcode payloadLen, checkHead head maxPayloadLen = .ok (proto, opcode, payloadLen) →
        payloadLen ≤ maxPayloadLen := by
  have hbyte (i : Nat) (hi : i < 6) : byteAt head i = .ok (head.getD i 0) := by
    simp [byteAt, h, hi]
  have hbytes : [1, 2, 3, 4].mapM (byteAt head) = .ok ([1, 2, 3, 4].map (head.getD · 0)) :=
    mapM_eq_ok fun i hi ↦ hbyte i (by revert hi; revert i; decide)
  simp only [checkHead, hbyte 0 (by decide), hbyte 5 (by decide), hbytes, bind, Except.bind]
  split
  · exact ⟨.fail _, by rintro _ _ _ ⟨⟩⟩
  · split
    · exact ⟨.fail _, by rintro _ _ _ ⟨⟩⟩
    · next hsize =>
      rw [subU32, if_pos (Nat.one_le_iff_ne_zero.mpr hsize)]
      dsimp only
      split
      · exact ⟨.fail _, by rintro _ _ _ ⟨⟩⟩
      · next hfits =>
        refine ⟨.ok _, ?_⟩
        rintro _ _ _ ⟨⟩
        omega

/-- No stream makes the reading of a frame leave its bounds, or a buffer larger than the bound. -/
theorem readFrame_bounded {zlib : List UInt8 → List (Arrival UInt8)} (hzlib : FitsBuffer zlib)
    {stream : List (Arrival UInt8)} {maxPayloadLen : Nat} (hmax : maxPayloadLen ≤ maxU32) :
    Safe (readFrame zlib stream maxPayloadLen).result ∧
      ∀ n ∈ (readFrame zlib stream maxPayloadLen).buffers, n ≤ maxPayloadLen := by
  have hio : Safe (.error (.error .io) : Outcome (UInt8 × UInt8 × List UInt8)) := by
    rintro ⟨⟩
  unfold readFrame
  split
  · exact ⟨hio, by simp⟩
  · next head stream₁ hhead =>
    obtain ⟨hsafe, hbound⟩ := @checkHead_bounded head maxPayloadLen (length_of_readExact hhead)
    split
    · next e he =>
      rw [he] at hsafe
      refine ⟨fun hpanic ↦ hsafe ?_, by simp⟩
      rw [Except.error.inj hpanic]
    · next proto opcode payloadLen hok =>
      have hlen := hbound proto opcode payloadLen hok
      split
      · exact ⟨hio, by simpa using hlen⟩
      · next payload stream₂ hpayload =>
        split
        · have hinflate := @inflateLoop_bounded maxPayloadLen hmax (zlib payload) []
            (hzlib payload) (Nat.zero_le _)
          exact ⟨hinflate.1.map, by simpa using ⟨hlen, hinflate.2⟩⟩
        · exact ⟨.ok _, by simpa using hlen⟩

/-! ## The codec -/

/-- Files above this size use the wide form. `src/native/engine/src/ed2k/hash.rs:18`. -/
def oldMaxFileSize : Nat := 4290048000

/-- The largest file of a link. `hash.rs:20`. -/
def maxFileSize : Nat := 0x4000000000

/-- A payload comes through in a frame of either plain protocol, and what follows it is left. -/
def RoundTrips (zlib : List UInt8 → List (Arrival UInt8)) (payload : List UInt8)
    (maxPayloadLen : Nat) : Prop :=
  ∀ proto opcode rest stream, (proto = protoEdonkey ∨ proto = protoEmule) →
    Chunked (frameWithProto proto opcode payload ++ rest) stream →
    ∃ stream', Chunked rest stream' ∧ readFrame zlib stream maxPayloadLen =
      ⟨.ok (proto, opcode, payload), stream', [payload.length]⟩

/-- Ranges inside a file of a size a link may have are read back as they were sent. -/
theorem decode_ofInflight {totalBytes : Nat} (htotal : totalBytes ≤ maxFileSize)
    (fileHash : Hash16) {inflight : List PartRange}
    (h : ∀ r ∈ inflight, r.start < r.endExclusive ∧ r.endExclusive ≤ totalBytes) :
    (RequestParts.decode
      (RequestParts.ofInflight fileHash inflight (oldMaxFileSize < totalBytes)).encode.2
      (oldMaxFileSize < totalBytes)) =
      .ok (.ofInflight fileHash inflight (oldMaxFileSize < totalBytes)) := by
  apply RequestParts.decode_encode
  intro i range hrange
  have hmem : range ∈ inflight := List.mem_of_mem_take (List.mem_of_getElem? hrange)
  obtain ⟨hlt, hle⟩ := h range hmem
  have hwidth : totalBytes < 256 ^ RequestParts.offsetLen (oldMaxFileSize < totalBytes) := by
    unfold maxFileSize at htotal
    by_cases hlarge : oldMaxFileSize < totalBytes
    · simp only [hlarge, decide_true, RequestParts.offsetLen, if_true]
      omega
    · unfold oldMaxFileSize at hlarge ⊢
      simp only [hlarge, decide_false, RequestParts.offsetLen, Bool.false_eq_true, if_false]
      omega
  have hsame : (RequestParts.ofInflight fileHash inflight (oldMaxFileSize < totalBytes)).largeFile =
      decide (oldMaxFileSize < totalBytes) := rfl
  rw [hsame]
  exact ⟨by omega, by omega, by omega⟩

/-- The codec: frames below the limit of their size field and requests come through, and no bytes
make a reader leave its bounds. -/
theorem wire_codec (zlib : List UInt8 → List (Arrival UInt8)) (hzlib : FitsBuffer zlib) :
    (∀ maxPayloadLen ≤ maxU32, ∀ payload : List UInt8, payload.length ≤ maxPayloadLen →
      payload.length < maxU32 → RoundTrips zlib payload maxPayloadLen) ∧
    (∀ totalBytes ≤ maxFileSize, ∀ (fileHash : Hash16) (inflight : List PartRange),
      (∀ r ∈ inflight, r.start < r.endExclusive ∧ r.endExclusive ≤ totalBytes) →
      (RequestParts.decode
        (RequestParts.ofInflight fileHash inflight (oldMaxFileSize < totalBytes)).encode.2
        (oldMaxFileSize < totalBytes)) =
        .ok (.ofInflight fileHash inflight (oldMaxFileSize < totalBytes))) ∧
    (∀ stream, ∀ maxPayloadLen ≤ maxU32, Safe (readFrame zlib stream maxPayloadLen).result ∧
      ∀ n ∈ (readFrame zlib stream maxPayloadLen).buffers, n ≤ maxPayloadLen) ∧
    ∀ proto opcode payload largeFile, Safe (dispatch proto opcode payload largeFile) := by
  refine ⟨fun _ _ _ hmax hsize _ _ _ _ hproto hstream ↦ ?_, fun _ htotal fileHash _ h ↦ ?_,
    fun _ _ hmax ↦ ?_, fun proto opcode payload largeFile ↦ ?_⟩
  · exact readFrame_frameWithProto zlib hproto hmax hsize hstream
  · exact decode_ofInflight htotal fileHash h
  · exact readFrame_bounded hzlib hmax
  · exact safe_dispatch payload proto opcode largeFile

/-- A decoder of one stored block: behind the seven bytes of its heads the block is there as it
is, and fits a read. -/
def storedZlib : List UInt8 → List (Arrival UInt8)
  | 0x78 :: 0x01 :: 0x01 :: low :: high :: _ :: _ :: rest =>
    [.data (rest.take (min (leNat [low, high]) inflateBuffer)), .data []]
  | _ => [.failed "corrupt deflate stream"]

private theorem fitsBuffer_storedZlib : FitsBuffer storedZlib := by
  intro input bytes hmem
  unfold storedZlib at hmem
  split at hmem
  · next low high first second rest =>
    rcases List.mem_cons.mp hmem with hdata | hend
    · rw [Arrival.data.inj hdata, List.length_take]
      omega
    · rw [Arrival.data.inj (List.mem_singleton.mp hend)]
      exact Nat.zero_le _
  · cases List.mem_singleton.mp hmem

/-- A packed frame with the bytes 1, 2 and 3 in a stored block, in two pieces. -/
def packedStream : List (Arrival UInt8) :=
  [.data [protoPacked, 15, 0, 0, 0, 0x46, 0x78],
    .data [0x01, 0x01, 3, 0, 252, 255, 1, 2, 3, 0, 13, 0, 7]]

/-- The packed frame is read, within the bound of its payload and in no smaller one. -/
theorem wire_codec_stored :
    (readFrame storedZlib packedStream 16).result = .ok (protoEdonkey, 0x46, [1, 2, 3]) ∧
      (readFrame storedZlib packedStream 16).buffers = [14, 3] ∧
      (∀ n ∈ (readFrame storedZlib packedStream 16).buffers, n ≤ 16) ∧
      Safe (readFrame storedZlib packedStream 2).result ∧
      RoundTrips storedZlib [1, 2, 3] 16 ∧
      ∀ proto opcode payload largeFile, Safe (dispatch proto opcode payload largeFile) := by
  obtain ⟨hround, -, hbounded, hdispatch⟩ := wire_codec storedZlib fitsBuffer_storedZlib
  refine ⟨by decide, by decide, (hbounded packedStream 16 (by decide)).2,
    (hbounded packedStream 2 (by decide)).1, ?_, hdispatch⟩
  exact hround 16 (by decide) [1, 2, 3] (by decide) (by decide)

/-- A payload of 2^32 - 1 bytes does not come through: its size, which counts the opcode, wraps to
zero. -/
theorem not_roundTrips_largest :
    ¬ ∀ maxPayloadLen ≤ maxU32, ∀ payload : List UInt8, payload.length ≤ maxPayloadLen →
      RoundTrips storedZlib payload maxPayloadLen := by
  intro h
  have hround := h maxU32 (Nat.le_refl _) (List.replicate maxU32 0) List.length_replicate.le
  generalize hpayload : List.replicate maxU32 (0 : UInt8) = payload at hround
  have hlength : payload.length = maxU32 := by rw [← hpayload, List.length_replicate]
  have hword : (payload.length % 2 ^ 32 + 1) % 2 ^ 32 = 0 := by
    rw [hlength]
    decide
  have hframe : frameWithProto protoEdonkey 0 payload =
      [protoEdonkey, 0, 0, 0, 0, 0] ++ payload := by
    rw [frameWithProto, hword]
    rfl
  have hstream : Chunked ([protoEdonkey, 0, 0, 0, 0, 0] ++ payload)
      [.data ([protoEdonkey, 0, 0, 0, 0, 0] ++ payload)] := .single (by simp)
  obtain ⟨stream₁, -, hread⟩ := hstream.readExact_append
  obtain ⟨stream', -, hframeRead⟩ := hround protoEdonkey 0 []
    [.data ([protoEdonkey, 0, 0, 0, 0, 0] ++ payload)] (.inl rfl)
    (by rwa [List.append_nil, hframe])
  have hhead : checkHead [protoEdonkey, 0, 0, 0, 0, 0] maxU32 =
      fail "frame size 0 (missing opcode)" := rfl
  have hsix : [protoEdonkey, 0, 0, 0, 0, 0].length = 6 := rfl
  rw [hsix] at hread
  rw [readFrame, hread] at hframeRead
  simp only [hhead, fail] at hframeRead
  cases congrArg FrameRead.result hframeRead

end Ed2k.Wire
