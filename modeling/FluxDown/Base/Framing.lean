import Mathlib

/-!
# Codes that can be read off the front of a text

Library `Base`. A code is readable on a set of values if the value and what follows its code can
be told from the two put together. Codes of one length are readable, and so are a text with its
length before it and a list of codes with their count before it; a readable code is injective.
Texts joined by a separator that none of them has are told apart by what they join to, and a
text is split into such.
-/

namespace Base

variable {α β γ : Type*}

/-- Of a text that starts with the code of a valid value, the value and the rest are determined. -/
def Readable (valid : α → Prop) (encode : α → List γ) : Prop :=
  ∀ ⦃a b : α⦄ ⦃rest rest' : List γ⦄, valid a → valid b →
    encode a ++ rest = encode b ++ rest' → a = b ∧ rest = rest'

namespace Readable

variable {valid : α → Prop} {encode : α → List γ}

/-- A readable code tells values apart. -/
theorem injective (h : Readable valid encode) {a b : α} (ha : valid a) (hb : valid b)
    (hsame : encode a = encode b) : a = b :=
  (h ha hb (congrArg (· ++ []) hsame)).1

/-- Injective codes of one length. -/
theorem of_length {n : Nat} (hlength : ∀ a, valid a → (encode a).length = n)
    (hinj : ∀ a b, valid a → valid b → encode a = encode b → a = b) : Readable valid encode := by
  intro a b rest rest' ha hb hsame
  have hboth := List.append_inj hsame ((hlength a ha).trans (hlength b hb).symm)
  exact ⟨hinj a b ha hb hboth.1, hboth.2⟩

/-- Values under an injective name. -/
theorem comp (h : Readable valid encode) {f : β → α} (hinj : Function.Injective f) :
    Readable (fun b ↦ valid (f b)) fun b ↦ encode (f b) := by
  intro a b rest rest' ha hb hsame
  obtain ⟨hvalue, hrest⟩ := h ha hb hsame
  exact ⟨hinj hvalue, hrest⟩

/-- Lists of one length. -/
theorem flatMap (h : Readable valid encode) :
    ∀ {l l' : List α} {rest rest' : List γ}, (∀ a ∈ l, valid a) → (∀ a ∈ l', valid a) →
      l.length = l'.length → l.flatMap encode ++ rest = l'.flatMap encode ++ rest' →
        l = l' ∧ rest = rest'
  | [], [], _, _, _, _, _, hsame => ⟨rfl, hsame⟩
  | a :: l, b :: l', rest, rest', hl, hl', hlength, hsame => by
    rw [List.flatMap_cons, List.flatMap_cons, List.append_assoc, List.append_assoc] at hsame
    obtain ⟨hfirst, htail⟩ := h (hl a List.mem_cons_self) (hl' b List.mem_cons_self) hsame
    obtain ⟨hothers, hrest⟩ := flatMap h (fun x hx ↦ hl x (List.mem_cons_of_mem _ hx))
      (fun x hx ↦ hl' x (List.mem_cons_of_mem _ hx)) (Nat.succ.inj hlength) htail
    exact ⟨by rw [hfirst, hothers], hrest⟩

/-- Lists of one length are told apart by their codes. -/
theorem flatMap_injective (h : Readable valid encode) {l l' : List α} (hl : ∀ a ∈ l, valid a)
    (hl' : ∀ a ∈ l', valid a) (hlength : l.length = l'.length)
    (hsame : l.flatMap encode = l'.flatMap encode) : l = l' :=
  (h.flatMap hl hl' hlength (congrArg (· ++ []) hsame)).1

section Counted

variable {bound : Nat} {number : Nat → List γ}

/-- A text with its length before it. -/
theorem framed (hnumber : Readable (· < bound) number) :
    Readable (fun text : List γ ↦ text.length < bound) fun text ↦ number text.length ++ text := by
  intro a b rest rest' ha hb hsame
  rw [List.append_assoc, List.append_assoc] at hsame
  obtain ⟨hlength, hsame⟩ := hnumber ha hb hsame
  exact List.append_inj hsame hlength

/-- A list with its count before it. -/
theorem counted (h : Readable valid encode) (hnumber : Readable (· < bound) number) :
    Readable (fun l : List α ↦ l.length < bound ∧ ∀ a ∈ l, valid a)
      fun l ↦ number l.length ++ l.flatMap encode := by
  intro l l' rest rest' hl hl' hsame
  rw [List.append_assoc, List.append_assoc] at hsame
  obtain ⟨hlength, hsame⟩ := hnumber hl.1 hl'.1 hsame
  exact h.flatMap hl.2 hl'.2 hlength hsame

end Counted

end Readable

/-- Texts without the separator between them. -/
theorem intercalate_injective [DecidableEq γ] {sep : γ} {l l' : List (List γ)}
    (hl : ∀ text ∈ l, sep ∉ text) (hl' : ∀ text ∈ l', sep ∉ text) (hne : l ≠ []) (hne' : l' ≠ [])
    (hsame : [sep].intercalate l = [sep].intercalate l') : l = l' := by
  rw [← List.splitOn_intercalate sep hl hne, hsame, List.splitOn_intercalate sep hl' hne']

/-- What a text is split into does not have the separator. -/
theorem not_mem_of_mem_splitOn [DecidableEq γ] {sep : γ} : ∀ {text piece : List γ},
    piece ∈ text.splitOn sep → sep ∉ piece
  | [], piece, h => by
    rw [List.splitOn_nil, List.mem_singleton] at h
    simp [h]
  | c :: text, piece, h => by
    rw [List.splitOn_cons_eq_if_modifyHead] at h
    by_cases hc : c = sep
    · rw [if_pos (by simpa using hc)] at h
      rcases List.mem_cons.mp h with rfl | hrest
      · simp
      · exact not_mem_of_mem_splitOn hrest
    · rw [if_neg (by simpa using hc)] at h
      obtain ⟨first, others, hsplit⟩ := List.exists_cons_of_ne_nil (List.splitOn_ne_nil sep text)
      rw [hsplit, List.modifyHead_cons] at h
      rcases List.mem_cons.mp h with rfl | hrest
      · have hfirst : sep ∉ first :=
          @not_mem_of_mem_splitOn _ _ text first (by rw [hsplit]; exact List.mem_cons_self)
        simp [hfirst, Ne.symm hc]
      · exact @not_mem_of_mem_splitOn _ _ text piece
          (by rw [hsplit]; exact List.mem_cons_of_mem _ hrest)

end Base
