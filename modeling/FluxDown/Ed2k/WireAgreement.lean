import FluxDown.Ed2k.WireCodec

/-!
# The request loop decodes as the codec does

Library `Ed2k`. The request loop keeps of a message what it looks at. Its decoder gives that of the
message the codec decodes, and ends with the same error where the codec ends with one.
-/

namespace Ed2k.Wire

open Base

variable {α β γ δ : Type}

/-- What the request loop keeps of a message. -/
def Ed2kMessage.seen : Ed2kMessage → Ed2k.Ed2kMessage
  | .sendingPart _ start endExclusive data => .sendingPart start endExclusive data
  | .compressedPart _ start packed => .compressedPart start packed
  | .queueRank rank => .queueRank rank
  | .outOfPartReqs => .outOfPartReqs
  | .noFile _ => .noFile
  | .idChange _ | .reject | .serverMessage _ | .serverStatus | .foundSources .. | .helloAnswer _
  | .fileStatus .. | .hashSetAnswer _ | .unknown _ => .other

/-- The call ends as the other one, whose value is what the function keeps of its own. -/
def Agrees (f : α → β) (x : Outcome α) (y : Except DownloadError β) : Prop :=
  x.map f = y.mapError Abort.error

namespace Agrees

variable {f : α → β}

private theorem ok (f : α → β) (a : α) : Agrees f (.ok a) (.ok (f a)) := rfl

private theorem fail (f : α → β) (text : String) : Agrees f (fail text) (.error (.ed2k text)) := rfl

private theorem bind {x : Outcome α} {y : Except DownloadError β} {g : γ → δ}
    {k : α → Outcome γ} {k' : β → Except DownloadError δ} (h : Agrees f x y)
    (hk : ∀ a, x = .ok a → Agrees g (k a) (k' (f a))) : Agrees g (x >>= k) (y >>= k') := by
  cases x with
  | error e =>
    cases y with
    | error e' => exact congrArg Except.error (Except.error.inj h)
    | ok b => cases h
  | ok a =>
    cases y with
    | error e' => cases h
    | ok b =>
      obtain rfl : f a = b := Except.ok.inj h
      exact hk a rfl

private theorem map {x : Outcome α} {y : Except DownloadError β} {g : α → γ} {g' : β → δ}
    {k : γ → δ} (h : Agrees f x y) (hk : ∀ a, k (g a) = g' (f a)) :
    Agrees k (g <$> x) (g' <$> y) := by
  cases x with
  | error e =>
    cases y with
    | error e' => exact congrArg Except.error (Except.error.inj h)
    | ok b => cases h
  | ok a =>
    cases y with
    | error e' => cases h
    | ok b =>
      obtain rfl : f a = b := Except.ok.inj h
      exact congrArg Except.ok (hk a)

private theorem ite {c : Prop} [Decidable c] {x x' : Outcome α} {y y' : Except DownloadError β}
    (h : Agrees f x y) (h' : Agrees f x' y') :
    Agrees f (if c then x else x') (if c then y else y') := by
  split
  · exact h
  · exact h'

end Agrees

/-! ## Numbers -/

private theorem addUsize_of_le {a b : Nat} (h : a + b ≤ maxU64) : addUsize a b = .ok (a + b) :=
  if_pos h

private theorem mulUsize_of_le {a b : Nat} (h : a * b ≤ maxU64) : mulUsize a b = .ok (a * b) :=
  if_pos h

private theorem getRange_add {buf : List UInt8} {off width : Nat} :
    getRange buf off (off + width) =
      if off + width ≤ buf.length then some ((buf.drop off).take width) else none := by
  unfold getRange
  by_cases hfits : off + width ≤ buf.length
  · rw [if_pos ⟨Nat.le_add_right off width, hfits⟩, if_pos hfits, Nat.add_sub_cancel_left]
  · rw [if_neg fun h ↦ hfits h.2, if_neg hfits]

private theorem readNumber_eq {width off : Nat} (name : String) (buf : List UInt8)
    (h : off + width ≤ maxU64) : Agrees id (readNumber width name buf off)
      (readLe width name buf off) := by
  rw [readNumber, addUsize_of_le h]
  simp only [bind, Except.bind, getRange_add, readLe]
  by_cases hfits : off + width ≤ buf.length
  · have hlength : ((buf.drop off).take width).length = width := by
      rw [List.length_take, List.length_drop]
      omega
    have hbytes := mapM_byteAt ((buf.drop off).take width)
    rw [hlength] at hbytes
    simp only [if_pos hfits, okOr, Option.elim_some, hbytes]
    exact Agrees.ok id _
  · simp only [if_neg hfits, okOr, Option.elim_none]
    exact Agrees.fail id _

private theorem readHash16_eq (buf : List UInt8) {off : Nat} (h : off + 16 ≤ maxU64) :
    Agrees Subtype.val (readHash16 buf off) (Ed2k.readHash16 buf off) := by
  rw [readHash16, addUsize_of_le h]
  simp only [bind, Except.bind, getRange_add, Ed2k.readHash16]
  by_cases hfits : off + 16 ≤ buf.length
  · have hlength : ((buf.drop off).take 16).length = 16 := by
      rw [List.length_take, List.length_drop]
      omega
    simp only [if_pos hfits, Option.bind_some, toHash16, dif_pos hlength, okOr, Option.elim_some]
    rfl
  · simp only [if_neg hfits, Option.bind_none, okOr, Option.elim_none]
    exact Agrees.fail _ _

private theorem readOffset_eq (large : Bool) (payload : List UInt8) {wide narrow : Nat}
    (hwide : wide ≤ 64) (hnarrow : narrow ≤ 64) :
    Agrees id (readOffset large payload wide narrow)
      (Ed2k.readOffset large payload wide narrow) := by
  have hmax : 128 ≤ maxU64 := by decide
  exact .ite (readNumber_eq _ _ (by omega)) (readNumber_eq _ _ (by omega))

/-- A number that lies within the payload is read. -/
theorem readNumber_ok {width off : Nat} {name : String} {buf : List UInt8}
    (h : off + width ≤ maxU64) (hfits : off + width ≤ buf.length) :
    ∃ n, readNumber width name buf off = .ok n := by
  have hagrees := readNumber_eq name buf h
  rw [readLe, if_pos hfits] at hagrees
  cases hread : readNumber width name buf off with
  | error e =>
    rw [hread] at hagrees
    cases hagrees
  | ok n => exact ⟨n, rfl⟩

/-- So is a hash. -/
theorem readHash16_ok {off : Nat} {buf : List UInt8} (h : off + 16 ≤ maxU64)
    (hfits : off + 16 ≤ buf.length) : ∃ hash, readHash16 buf off = .ok hash := by
  have hagrees := readHash16_eq buf h
  rw [Ed2k.readHash16, if_pos hfits] at hagrees
  cases hread : readHash16 buf off with
  | error e =>
    rw [hread] at hagrees
    cases hagrees
  | ok hash => exact ⟨hash, rfl⟩

/-- A loop whose turns succeed succeeds. -/
theorem mapM_ok {f : α → Outcome β} {l : List α} (h : ∀ a ∈ l, ∃ b, f a = .ok b) :
    ∃ bs, l.mapM f = .ok bs := by
  induction l with
  | nil => exact ⟨[], rfl⟩
  | cons a l ih =>
    rw [List.forall_mem_cons] at h
    obtain ⟨⟨b, hb⟩, hrest⟩ := h
    obtain ⟨bs, hbs⟩ := ih hrest
    refine ⟨b :: bs, ?_⟩
    rw [List.mapM_cons, hb, hbs]
    rfl

/-! ## Messages -/

section Messages

variable (payload : List UInt8)

private theorem word {n : Nat} (h : n ≤ 2 ^ 32) : n ≤ maxU64 := by
  have hmax : 2 ^ 32 ≤ maxU64 := by decide
  omega

private theorem decodeServerMessage_eq : Agrees Ed2kMessage.seen (decodeServerMessage payload)
    (Ed2k.decodeServerMessage payload) := by
  apply Agrees.bind (readNumber_eq "u16" payload (word (by decide)))
  intro len hlen
  have hlt := lt_of_readU16Le hlen
  rw [addUsize_of_le (word (by omega))]
  simp only [bind, Except.bind, getRange_add, id_eq]
  by_cases hfits : 2 + len ≤ payload.length
  · rw [if_pos hfits, if_neg (Nat.not_lt.mpr hfits)]
    exact Agrees.ok Ed2kMessage.seen (.serverMessage _)
  · rw [if_neg hfits, if_pos (Nat.lt_of_not_le hfits)]
    exact Agrees.fail _ _

private theorem readSource_ok {i count : Nat} (hi : i < count) (hcount : count < 256)
    (hfits : 17 + count * 6 ≤ payload.length) : ∃ source, readSource payload i = .ok source := by
  rw [readSource, mulUsize_of_le (word (by omega))]
  simp only [bind, Except.bind]
  rw [addUsize_of_le (word (by omega))]
  obtain ⟨id, hid⟩ := @readNumber_ok 4 (17 + i * 6) "u32" payload (word (by omega)) (by omega)
  obtain ⟨port, hport⟩ :=
    @readNumber_ok 2 (17 + i * 6 + 4) "u16" payload (word (by omega)) (by omega)
  simp only [readU32Le, hid]
  rw [addUsize_of_le (word (by omega))]
  simp only [readU16Le, hport]
  exact ⟨_, rfl⟩

private theorem decodeFoundSources_eq : Agrees Ed2kMessage.seen (decodeFoundSources payload)
    (Ed2k.decodeFoundSources payload) := by
  apply Agrees.bind (readHash16_eq payload (word (by decide)))
  intro fileHash _
  cases hcount : payload[16]? with
  | none => exact Agrees.fail _ _
  | some count =>
    have hlt := count.toNat_lt
    simp only [okOr, Option.elim_some, bind, Except.bind]
    rw [mulUsize_of_le (word (by omega))]
    simp only
    rw [addUsize_of_le (word (by omega))]
    simp only
    split
    · exact Agrees.fail _ _
    · next hfits =>
      obtain ⟨sources, hsources⟩ := @mapM_ok _ _ (readSource payload) (List.range count.toNat)
        fun i hi ↦ readSource_ok payload (List.mem_range.mp hi) hlt (by omega)
      rw [hsources]
      exact Agrees.ok Ed2kMessage.seen (.foundSources fileHash sources)

private theorem decodeFileStatus_eq : Agrees Ed2kMessage.seen (decodeFileStatus payload)
    (Ed2k.decodeFileStatus payload) := by
  apply Agrees.bind (readHash16_eq payload (word (by decide)))
  intro fileHash _
  apply Agrees.bind (readNumber_eq "u16" payload (word (by decide)))
  intro partCount hpartCount
  have hlt := lt_of_readU16Le hpartCount
  dsimp only
  rw [addUsize_of_le (word (by omega))]
  simp only [bind, Except.bind, getRange_add, id_eq]
  by_cases hfits : 18 + (partCount + 7) / 8 ≤ payload.length
  · rw [if_pos hfits, if_neg (Nat.not_lt.mpr hfits)]
    exact Agrees.ok Ed2kMessage.seen (.fileStatus fileHash _)
  · rw [if_neg hfits, if_pos (Nat.lt_of_not_le hfits)]
    exact Agrees.fail _ _

private theorem readPartHash_ok {i count : Nat} (hi : i < count) (hcount : count < 65536)
    (hfits : 18 + count * 16 ≤ payload.length) : ∃ hash, readPartHash payload i = .ok hash := by
  rw [readPartHash, mulUsize_of_le (word (by omega))]
  simp only [bind, Except.bind]
  rw [addUsize_of_le (word (by omega))]
  exact readHash16_ok (word (by omega)) (by omega)

private theorem decodeHashSetAnswer_eq : Agrees Ed2kMessage.seen (decodeHashSetAnswer payload)
    (Ed2k.decodeHashsetAnswer payload) := by
  apply Agrees.bind (readNumber_eq "u16" payload (word (by decide)))
  intro count hcount
  have hlt := lt_of_readU16Le hcount
  simp only [bind, Except.bind, id_eq]
  rw [mulUsize_of_le (word (by omega))]
  simp only
  rw [addUsize_of_le (word (by omega))]
  simp only
  split
  · exact Agrees.fail _ _
  · next hfits =>
    obtain ⟨hashes, hhashes⟩ := @mapM_ok _ _ (readPartHash payload) (List.range count)
      fun i hi ↦ readPartHash_ok payload (List.mem_range.mp hi) hlt (by omega)
    rw [hhashes]
    exact Agrees.ok Ed2kMessage.seen (.hashSetAnswer hashes)

/-- The rest of a payload, or an error. -/
theorem rest_eq {start : Nat} {text : String} {message : List UInt8 → Ed2kMessage} :
    Agrees Ed2kMessage.seen (okOr (getFrom payload start) text >>= fun rest ↦ .ok (message rest))
      (if payload.length < start then .error (.ed2k text)
        else .ok (message (payload.drop start)).seen) := by
  unfold getFrom
  by_cases hfits : start ≤ payload.length
  · rw [if_pos hfits, if_neg (Nat.not_lt.mpr hfits)]
    exact Agrees.ok Ed2kMessage.seen (message _)
  · rw [if_neg hfits, if_pos (Nat.lt_of_not_le hfits)]
    exact Agrees.fail _ _

private theorem decodeSendingPart_eq (large : Bool) :
    Agrees Ed2kMessage.seen (decodeSendingPart payload large)
      (Ed2k.decodeSendingPart payload large) := by
  apply Agrees.bind (readHash16_eq payload (word (by decide)))
  intro fileHash _
  apply Agrees.bind (readOffset_eq large payload (by decide) (by decide))
  intro start _
  apply Agrees.bind (readOffset_eq large payload (by decide) (by decide))
  intro endExclusive _
  exact @rest_eq payload _ _ (.sendingPart fileHash start endExclusive)

private theorem decodeCompressedPart_eq (large : Bool) :
    Agrees Ed2kMessage.seen (decodeCompressedPart payload large)
      (Ed2k.decodeCompressedPart payload large) := by
  apply Agrees.bind (readHash16_eq payload (word (by decide)))
  intro fileHash _
  apply Agrees.bind (readOffset_eq large payload (by decide) (by decide))
  intro start _
  exact @rest_eq payload _ _ (.compressedPart fileHash start)

private theorem dispatchEmule_eq (opcode : UInt8) :
    Agrees Ed2kMessage.seen (dispatchEmule opcode payload) (decodeEmule opcode payload) :=
  .ite (decodeCompressedPart_eq payload false) <| .ite (decodeCompressedPart_eq payload true) <|
    .ite (decodeSendingPart_eq payload true) <|
    .ite (.map (readNumber_eq "u32" payload (word (by decide))) fun _ ↦ rfl) <|
      .ok _ (Ed2kMessage.unknown opcode)

/-- The decoder of the request loop gives what it keeps of the message that the codec decodes. -/
theorem dispatch_agrees (proto opcode : UInt8) (largeFile : Bool) :
    Agrees Ed2kMessage.seen (dispatch proto opcode payload largeFile)
      (decode proto opcode payload) := by
  have hnumber : Agrees id (readU32Le payload 0) (Ed2k.readU32Le payload 0) :=
    readNumber_eq "u32" payload (word (by decide))
  have hhash : Agrees Subtype.val (readHash16 payload 0) (Ed2k.readHash16 payload 0) :=
    readHash16_eq payload (word (by decide))
  -- Two messages of a server are known to the codec only; the loop skips them like unknown ones.
  have hskip : ∀ {c : Prop} [Decidable c] {message : Ed2kMessage} {x : Outcome Ed2kMessage}
      {y : Except DownloadError Ed2k.Ed2kMessage}, (c → y = .ok message.seen) →
      Agrees Ed2kMessage.seen x y →
        Agrees Ed2kMessage.seen (if c then .ok message else x) y := by
    intro c _ message x y hc h
    split
    · next hyes => rw [hc hyes]; exact Agrees.ok _ message
    · exact h
  refine .ite (dispatchEmule_eq payload opcode) <| .ite (.map hnumber fun _ ↦ rfl) <|
    hskip ?_ <| hskip ?_ <| .ite (decodeServerMessage_eq payload) <|
    .ite (decodeFoundSources_eq payload) <| .ite (.map hhash fun _ ↦ rfl) <|
    .ite (decodeFileStatus_eq payload) <| .ite (.map hhash fun _ ↦ rfl) <|
    .ite (decodeHashSetAnswer_eq payload) <| .ite (decodeSendingPart_eq payload false) <|
    .ite (.map hnumber fun _ ↦ rfl) <| .ite (.ok _ Ed2kMessage.outOfPartReqs)
      (.ok _ (Ed2kMessage.unknown opcode))
  · rintro rfl
    rfl
  · rintro rfl
    rfl

end Messages

end Ed2k.Wire
