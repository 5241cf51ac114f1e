import FluxDown.Base.Percent

/-!
# Texts with placeholders

Library `Base`. A text in which known keys are holes: every place where a key stands, from left to
right, is a hole, and every other symbol stands for itself. A key is a name between an opening and a
closing brace, and names have neither, so a key is found at its opening brace by reading up to the
next brace. Scanning the bytes of a text for such braces is scanning its characters.
-/

namespace Base

/-- A symbol of a text with holes. -/
inductive Glyph (α κ : Type) where
  | char (c : α)
  | hole (k : κ)
deriving DecidableEq

variable {α κ : Type} [DecidableEq α]

/-- The symbols of a text, after so many that belong to a hole that was found. -/
def holesAfter (all : List κ) (key : κ → List α) : Nat → List α → List (Glyph α κ)
  | _, [] => []
  | skip + 1, _ :: text => holesAfter all key skip text
  | 0, c :: text => match all.find? fun k ↦ (key k).isPrefixOf (c :: text) with
    | some k => .hole k :: holesAfter all key ((key k).length - 1) text
    | none => .char c :: holesAfter all key 0 text

/-- The symbols of a text. -/
def holes (all : List κ) (key : κ → List α) (text : List α) : List (Glyph α κ) :=
  holesAfter all key 0 text

/-- Keys are names between braces. -/
structure Braced (opening closing : α) (all : List κ) (key : κ → List α) : Prop where
  ne : opening ≠ closing
  name : ∀ k ∈ all, ∃ name, key k = opening :: (name ++ [closing]) ∧ opening ∉ name ∧ closing ∉ name

variable {opening closing : α} {all : List κ} {key : κ → List α} {text inner after : List α}

private theorem holesAfter_eq (skip : Nat) (text : List α) :
    holesAfter all key skip text = holes all key (text.drop skip) := by
  induction text generalizing skip with
  | nil => cases skip <;> simp [holes, holesAfter]
  | cons c text ih =>
    cases skip with
    | zero => rfl
    | succ skip => rw [holesAfter, ih, List.drop_succ_cons]

/-- The empty template has no holes. -/
@[simp] theorem holes_nil : holes all key [] = [] := rfl

private theorem holes_cons (c : α) (text : List α) :
    holes all key (c :: text) = (all.find? fun k ↦ (key k).isPrefixOf (c :: text)).elim
      (.char c :: holes all key text)
      fun k ↦ .hole k :: holes all key (text.drop ((key k).length - 1)) := by
  rw [holes, holesAfter]
  cases all.find? fun k ↦ (key k).isPrefixOf (c :: text) with
  | none => rfl
  | some k => exact congrArg _ (holesAfter_eq _ _)

/-- What a symbol stands for, with a text for each hole. -/
def Glyph.fill (value : κ → List α) : Glyph α κ → List α
  | .char c => [c]
  | .hole k => value k

/-- The text is its symbols put together. -/
theorem flatMap_holes (h : Braced opening closing all key) (text : List α) :
    (holes all key text).flatMap (Glyph.fill key) = text := by
  induction hlength : text.length using Nat.strong_induction_on generalizing text with
  | _ n ih =>
    cases text with
    | nil => rfl
    | cons c text =>
      rw [holes_cons]
      cases hfind : all.find? fun k ↦ (key k).isPrefixOf (c :: text) with
      | none =>
        rw [Option.elim_none, List.flatMap_cons, ih text.length (by simp [← hlength]) text rfl]
        rfl
      | some k =>
        have hprefix : (key k).isPrefixOf (c :: text) = true := by
          simpa using List.find?_some hfind
        obtain ⟨rest, hrest⟩ := List.isPrefixOf_iff_prefix.mp hprefix
        obtain ⟨name, hkey, -⟩ := h.name k (List.mem_of_find?_eq_some hfind)
        have htext : text = name ++ [closing] ++ rest := by
          rw [hkey, List.cons_append] at hrest
          exact (List.cons.inj hrest).2.symm
        have hdrop : text.drop ((key k).length - 1) = rest := by
          rw [htext, hkey, List.length_cons, Nat.add_sub_cancel, List.drop_left]
        have hsmall : rest.length < n := by
          rw [← hlength, ← hrest, List.length_append, hkey, List.length_cons]
          omega
        rw [Option.elim_some, hdrop, List.flatMap_cons, ih rest.length hsmall rest rfl, Glyph.fill,
          hrest]

/-- A symbol other than the opening brace is no hole. -/
theorem holes_cons_of_ne (h : Braced opening closing all key) {c : α} (hc : c ≠ opening)
    (text : List α) : holes all key (c :: text) = .char c :: holes all key text := by
  have hnone : all.find? (fun k ↦ (key k).isPrefixOf (c :: text)) = none := by
    rw [List.find?_eq_none]
    intro k hk
    obtain ⟨name, hkey, -⟩ := h.name k hk
    simp [hkey, hc.symm]
  rw [holes_cons, hnone, Option.elim_none]

/-- Symbols without an opening brace stand for themselves. -/
theorem holes_append (h : Braced opening closing all key) (hinner : opening ∉ inner)
    (text : List α) : holes all key (inner ++ text) = inner.map .char ++ holes all key text := by
  induction inner with
  | nil => rfl
  | cons c inner ih =>
    rw [List.mem_cons, not_or] at hinner
    rw [List.cons_append, holes_cons_of_ne h (Ne.symm hinner.1), ih hinner.2]
    rfl

/-- A key stands at an opening brace when what is up to the next brace is its name, and that brace
closes. -/
theorem isPrefixOf_key_iff (h : Braced opening closing all key) {k : κ} (hk : k ∈ all)
    (hinner : opening ∉ inner ∧ closing ∉ inner)
    (hafter : ∀ b ∈ after.head?, b = opening ∨ b = closing) :
    (key k).isPrefixOf (opening :: (inner ++ after)) = true ↔
      key k = opening :: (inner ++ [closing]) ∧ after.head? = some closing := by
  obtain ⟨name, hkey, hopening, hclosing⟩ := h.name k hk
  rw [List.isPrefixOf_iff_prefix, hkey, List.cons_prefix_cons, List.cons.injEq]
  simp only [true_and, List.append_left_inj]
  constructor
  · rintro ⟨rest, hrest⟩
    rw [List.append_assoc] at hrest
    -- The name and the inner text both end at the first brace.
    rcases List.append_eq_append_iff.mp hrest with ⟨more, rfl, hmore⟩ | ⟨more, rfl, hmore⟩
    · cases more with
      | nil =>
        rw [List.nil_append] at hmore
        exact ⟨(List.append_nil name).symm, by rw [← hmore]; rfl⟩
      | cons b more =>
        obtain rfl := (List.cons.inj hmore).1
        simp at hinner
    · cases more with
      | nil =>
        rw [List.nil_append] at hmore
        exact ⟨List.append_nil inner, by rw [hmore]; rfl⟩
      | cons b more =>
        rw [hmore] at hafter
        rcases hafter b rfl with rfl | rfl
        · simp at hopening
        · simp at hclosing
  · rintro ⟨rfl, hhead⟩
    obtain ⟨b, rest, rfl⟩ := List.exists_cons_of_ne_nil (l := after) (by rintro rfl; cases hhead)
    obtain rfl := Option.some.inj hhead
    exact ⟨rest, by simp⟩

/-- Without a closing brace before the next opening one, an opening brace stands for itself. -/
theorem holes_unclosed (h : Braced opening closing all key)
    (hinner : opening ∉ inner ∧ closing ∉ inner) (hafter : ∀ b ∈ after.head?, b = opening) :
    holes all key (opening :: (inner ++ after)) =
      .char opening :: holes all key (inner ++ after) := by
  have hnone : all.find? (fun k ↦ (key k).isPrefixOf (opening :: (inner ++ after))) = none := by
    rw [List.find?_eq_none]
    intro k hk hprefix
    have hclosed := (isPrefixOf_key_iff h hk hinner fun b hb ↦ .inl (hafter b hb)).mp hprefix
    exact h.ne (hafter closing hclosed.2).symm
  rw [holes_cons, hnone, Option.elim_none]

/-- A closed segment is a hole when it is a key, and stands for itself otherwise. -/
theorem holes_segment (h : Braced opening closing all key)
    (hinner : opening ∉ inner ∧ closing ∉ inner) (rest : List α) :
    holes all key (opening :: (inner ++ closing :: rest)) =
      (all.find? fun k ↦ key k = opening :: (inner ++ [closing])).elim
        ((opening :: (inner ++ [closing])).map .char) (fun k ↦ [.hole k]) ++
        holes all key rest := by
  have hsame : (all.find? fun k ↦ (key k).isPrefixOf (opening :: (inner ++ closing :: rest))) =
      all.find? fun k ↦ key k = opening :: (inner ++ [closing]) := by
    apply List.find?_congr
    intro k hk
    rw [Bool.eq_iff_iff, decide_eq_true_iff]
    have hiff := @isPrefixOf_key_iff _ _ _ _ _ _ _ inner (closing :: rest) h k hk hinner (by simp)
    simpa using hiff
  rw [holes_cons, hsame]
  cases hfind : all.find? fun k ↦ key k = opening :: (inner ++ [closing]) with
  | some k =>
    have hkey : key k = opening :: (inner ++ [closing]) := by
      simpa using List.find?_some hfind
    have hdrop : (inner ++ closing :: rest).drop ((key k).length - 1) = rest := by
      simp [hkey, List.drop_append]
    rw [Option.elim_some, Option.elim_some, hdrop]
    rfl
  | none =>
    have hsplit : inner ++ closing :: rest = (inner ++ [closing]) ++ rest := by simp
    have hplain : opening ∉ inner ++ [closing] := by simp [hinner.1, h.ne]
    simp only [Option.elim_none, hsplit, holes_append h hplain, List.map_cons, List.cons_append]

/-! ## Scanning bytes -/

section Bytes

variable {p : UInt8 → Bool} {q : Char → Bool}

/-- The bytes of a character beyond ASCII are high, and the first tells that a character starts. -/
theorem utf8EncodeChar_of_not_ascii {c : Char} (h : 128 ≤ c.toNat) :
    ∃ first rest, String.utf8EncodeChar c = first :: rest ∧ 0xC0 ≤ first.toNat ∧
      ∀ b ∈ rest, 128 ≤ b.toNat := by
  have hsize : ¬c.val.toNat ≤ 127 := by
    have hval : c.toNat = c.val.toNat := rfl
    omega
  unfold String.utf8EncodeChar
  simp only [hsize, if_false]
  split
  · exact ⟨_, _, rfl, by simp; omega, by simp; omega⟩
  · split
    · exact ⟨_, _, rfl, by simp; omega, by simp; omega⟩
    · exact ⟨_, _, rfl, by simp; omega, by simp; omega⟩

/-- The bytes start at a character, or are at their end. -/
def startsChar (bytes : List UInt8) : Bool :=
  bytes.head?.all fun b ↦ b.toNat < 0x80 || 0xC0 ≤ b.toNat

/-- A text starts a character. -/
theorem startsChar_utf8Bytes (text : List Char) : startsChar (utf8Bytes text) = true := by
  cases text with
  | nil => rfl
  | cons c text =>
    by_cases hc : c.toNat < 128
    · have hlt : c.toNat % 256 < 0x80 := by omega
      simp [startsChar, utf8Bytes, utf8EncodeChar_of_ascii hc, hlt]
    · obtain ⟨first, rest, hbytes, hfirst, -⟩ := utf8EncodeChar_of_not_ascii (not_lt.mp hc)
      simp [startsChar, utf8Bytes, hbytes, hfirst]

/-- A test of bytes is a test of characters: they agree on ASCII, and the rest passes. -/
structure AsciiTest (p : UInt8 → Bool) (q : Char → Bool) : Prop where
  ascii : ∀ c : Char, c.toNat < 128 → p (UInt8.ofNat c.toNat) = q c
  byte : ∀ b : UInt8, 128 ≤ b.toNat → p b = true
  char : ∀ c : Char, 128 ≤ c.toNat → q c = true

/-- Not being an ASCII character is told by bytes as by characters. -/
theorem AsciiTest.ne {d : Char} (hd : d.toNat < 128) :
    AsciiTest (fun b ↦ decide (b ≠ UInt8.ofNat d.toNat)) (fun c ↦ decide (c ≠ d)) where
  ascii c hc := by
    apply decide_eq_decide.mpr
    rw [not_iff_not, ← UInt8.toNat_inj, UInt8.toNat_ofNat', UInt8.toNat_ofNat',
      Nat.mod_eq_of_lt (by omega), Nat.mod_eq_of_lt (by omega)]
    exact Char.toNat_inj
  byte b hb := by
    rw [decide_eq_true_iff]
    rintro rfl
    rw [UInt8.toNat_ofNat', Nat.mod_eq_of_lt (by omega)] at hb
    omega
  char c hc := by
    rw [decide_eq_true_iff]
    rintro rfl
    omega

/-- So are two tests together. -/
theorem AsciiTest.and {p' : UInt8 → Bool} {q' : Char → Bool} (h : AsciiTest p q)
    (h' : AsciiTest p' q') : AsciiTest (fun b ↦ p b && p' b) (fun c ↦ q c && q' c) where
  ascii c hc := by rw [h.ascii c hc, h'.ascii c hc]
  byte b hb := by rw [h.byte b hb, h'.byte b hb, Bool.and_self]
  char c hc := by rw [h.char c hc, h'.char c hc, Bool.and_self]

/-- A character that passes has only bytes that pass. -/
theorem AsciiTest.all_bytes (h : AsciiTest p q) {c : Char} (hc : q c = true) :
    ∀ b ∈ String.utf8EncodeChar c, p b = true := by
  by_cases hascii : c.toNat < 128
  · simp [utf8EncodeChar_of_ascii hascii, h.ascii c hascii, hc]
  · obtain ⟨first, rest, hbytes, hfirst, hrest⟩ := utf8EncodeChar_of_not_ascii (not_lt.mp hascii)
    rw [hbytes, List.forall_mem_cons]
    exact ⟨h.byte first (by omega), fun b hb ↦ h.byte b (hrest b hb)⟩

private theorem AsciiTest.one_byte (h : AsciiTest p q) {c : Char} (hc : q c = false) :
    ∃ b, String.utf8EncodeChar c = [b] ∧ p b = false := by
  have hascii : c.toNat < 128 := by
    by_contra hlarge
    rw [h.char c (not_lt.mp hlarge)] at hc
    cases hc
  exact ⟨_, utf8EncodeChar_of_ascii hascii, (h.ascii c hascii).trans hc⟩

/-- Taking bytes while they pass is taking characters. -/
theorem takeWhile_utf8Bytes (h : AsciiTest p q) (text : List Char) :
    (utf8Bytes text).takeWhile p = utf8Bytes (text.takeWhile q) := by
  induction text with
  | nil => rfl
  | cons c text ih =>
    rw [utf8Bytes, List.flatMap_cons]
    cases hc : q c with
    | true =>
      rw [List.takeWhile_append_of_pos (h.all_bytes hc), List.takeWhile_cons_of_pos hc]
      exact congrArg _ ih
    | false =>
      obtain ⟨b, hbytes, hb⟩ := h.one_byte hc
      simp [hbytes, hb, hc, utf8Bytes]

/-- Dropping bytes while they pass is dropping characters. -/
theorem dropWhile_utf8Bytes (h : AsciiTest p q) (text : List Char) :
    (utf8Bytes text).dropWhile p = utf8Bytes (text.dropWhile q) := by
  have hsame : (utf8Bytes text).takeWhile p ++ (utf8Bytes text).dropWhile p =
      utf8Bytes (text.takeWhile q) ++ utf8Bytes (text.dropWhile q) := by
    rw [List.takeWhile_append_dropWhile, ← utf8Bytes_append, List.takeWhile_append_dropWhile]
  rw [takeWhile_utf8Bytes h] at hsame
  exact List.append_cancel_left hsame

/-- Texts have different bytes. -/
theorem utf8Bytes_injective : Function.Injective utf8Bytes := by
  intro text text' h
  exact Option.some.inj ((fromUtf8_utf8Bytes text).symm.trans (h ▸ fromUtf8_utf8Bytes text'))

end Bytes

end Base
