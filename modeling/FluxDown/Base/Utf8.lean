import Mathlib

/-!
# Text within a number of bytes

Library `Base`. The length of a text in bytes, the longest part from its start that fits in a number
of bytes, and the text without the characters of a kind at its ends.
-/

namespace Base

/-- What is checked character by character is not checked for all characters there are. -/
theorem forall_mem_of_all {α : Type*} {l : List α} {p : α → Prop} [DecidablePred p]
    (h : (l.all fun a ↦ decide (p a)) = true) : ∀ a ∈ l, p a := by
  rw [← List.decide_forall_mem] at h
  exact of_decide_eq_true h

/-- The bytes of a text in UTF-8. -/
def utf8Len (text : List Char) : Nat := (text.map Char.utf8Size).sum

/-- The longest part from the start that fits. -/
def fitting : Nat → List Char → List Char
  | _, [] => []
  | budget, c :: text =>
    if c.utf8Size ≤ budget then c :: fitting (budget - c.utf8Size) text else []

/-- Where the characters begin. -/
def charIndices : Nat → List Char → List Nat
  | _, [] => []
  | offset, c :: text => offset :: charIndices (offset + c.utf8Size) text

/-- Without the characters of a kind at the ends. -/
def trimMatches (p : Char → Bool) (text : List Char) : List Char := (text.dropWhile p).rdropWhile p

section Length

variable {text text' : List Char}

/-- The empty text has no bytes. -/
@[simp] theorem utf8Len_nil : utf8Len [] = 0 := rfl

/-- The first character has its bytes before the others. -/
@[simp] theorem utf8Len_cons (c : Char) : utf8Len (c :: text) = c.utf8Size + utf8Len text := by
  simp [utf8Len]

/-- The bytes of texts add up. -/
@[simp] theorem utf8Len_append : utf8Len (text ++ text') = utf8Len text + utf8Len text' := by
  simp [utf8Len]

/-- A text that is not empty has bytes. -/
theorem utf8Len_pos (h : text ≠ []) : 0 < utf8Len text := by
  cases text with
  | nil => exact absurd rfl h
  | cons c text =>
    have := c.utf8Size_pos
    rw [utf8Len_cons]
    omega

/-- A part of a text has no more bytes. -/
theorem utf8Len_le_of_isInfix (h : text <:+: text') : utf8Len text ≤ utf8Len text' := by
  obtain ⟨before, after, rfl⟩ := h
  simp only [utf8Len_append]
  omega

end Length

section Fitting

variable {budget : Nat} {text : List Char}

/-- Where the text does not fit, some character is the first that is left out. -/
theorem fitting_split (h : budget < utf8Len text) :
    ∃ c rest, text = fitting budget text ++ c :: rest ∧ utf8Len (fitting budget text) ≤ budget ∧
      budget < utf8Len (fitting budget text) + c.utf8Size := by
  induction text generalizing budget with
  | nil => exact absurd h (Nat.not_lt_zero _)
  | cons c text ih =>
    rw [utf8Len_cons] at h
    by_cases hfit : c.utf8Size ≤ budget
    · obtain ⟨d, rest, htext, hle, hlt⟩ := @ih (budget - c.utf8Size) (by omega)
      rw [fitting, if_pos hfit]
      refine ⟨d, rest, ?_, ?_, ?_⟩
      · rw [List.cons_append, ← htext]
      · rw [utf8Len_cons]
        omega
      · rw [utf8Len_cons]
        omega
    · rw [fitting, if_neg hfit]
      exact ⟨c, text, rfl, Nat.zero_le _, by simpa using hfit⟩

/-- No other part of the text is the longest that fits. -/
theorem fitting_eq {first rest : List Char} {c : Char} (hle : utf8Len first ≤ budget)
    (hlt : budget < utf8Len first + c.utf8Size) : fitting budget (first ++ c :: rest) = first := by
  induction first generalizing budget with
  | nil =>
    rw [List.nil_append, fitting, if_neg]
    simpa using hlt
  | cons d first ih =>
    rw [utf8Len_cons] at hle hlt
    rw [List.cons_append, fitting, if_pos (by omega), ih (by omega) (by omega)]

/-- The last character that begins within the budget begins where the longest part that fits
ends. -/
theorem getLast?_charIndices (offset : Nat) (h : budget < utf8Len text) :
    ((charIndices offset text).takeWhile (· ≤ offset + budget)).getLast? =
      some (offset + utf8Len (fitting budget text)) := by
  induction text generalizing offset budget with
  | nil => exact absurd h (Nat.not_lt_zero _)
  | cons c text ih =>
    rw [utf8Len_cons] at h
    rw [charIndices, List.takeWhile_cons_of_pos (by simp)]
    by_cases hfit : c.utf8Size ≤ budget
    · have hrest := @ih (budget - c.utf8Size) (offset + c.utf8Size) (by omega)
      rw [show offset + c.utf8Size + (budget - c.utf8Size) = offset + budget by omega] at hrest
      rw [fitting, if_pos hfit, utf8Len_cons, List.getLast?_cons, hrest, Option.getD_some,
        Nat.add_assoc]
    · have hnone : (charIndices (offset + c.utf8Size) text).takeWhile (· ≤ offset + budget) = [] := by
        cases text with
        | nil => rfl
        | cons d text =>
          rw [charIndices, List.takeWhile_cons_of_neg]
          simp
          omega
      rw [hnone, fitting, if_neg hfit]
      rfl

end Fitting

section Trim

variable {p : Char → Bool} {text : List Char}

/-- The ends of the text are not of the kind. -/
structure Trimmed (p : Char → Bool) (text : List Char) : Prop where
  head : ∀ c, text.head? = some c → p c = false
  last : ∀ c, text.getLast? = some c → p c = false

private theorem Trimmed.dropWhile_eq (h : Trimmed p text) : text.dropWhile p = text := by
  cases text with
  | nil => rfl
  | cons c text =>
    apply List.dropWhile_cons_of_neg
    rw [h.head c rfl]
    exact Bool.false_ne_true

/-- A text whose last character stays is not cut. -/
theorem rdropWhile_eq_self (h : ∀ c, text.getLast? = some c → p c = false) :
    text.rdropWhile p = text := by
  rw [List.rdropWhile_eq_self_iff]
  intro hne
  rw [h _ (List.getLast?_eq_some_getLast hne)]
  exact Bool.false_ne_true

/-- A gap at the end is cut. -/
theorem rdropWhile_append_of_all {gap : List Char} (h : ∀ c ∈ gap, p c = true) :
    (text ++ gap).rdropWhile p = text.rdropWhile p := by
  rw [List.rdropWhile, List.reverse_append, List.dropWhile_append_of_pos]
  · rfl
  · intro c hc
    exact h c (List.mem_reverse.mp hc)

/-- A trimmed text stays. -/
theorem Trimmed.trimMatches_eq (h : Trimmed p text) : trimMatches p text = text := by
  rw [trimMatches, h.dropWhile_eq, rdropWhile_eq_self h.last]

/-- A character that does not pass ends the taking, whatever follows. -/
theorem takeWhile_append_of_mem {text' : List Char} {c : Char} (hc : c ∈ text) (hp : p c = false) :
    (text ++ text').takeWhile p = text.takeWhile p := by
  rw [List.takeWhile_append, if_neg]
  intro hlength
  have hall := (List.takeWhile_prefix p).eq_of_length hlength
  have hkind := List.takeWhile_eq_self_iff.mp hall c hc
  rw [hp] at hkind
  exact Bool.noConfusion hkind

private theorem head?_dropWhile {c : Char} (h : (text.dropWhile p).head? = some c) :
    p c = false := by
  have hstop := List.head?_dropWhile_not p text
  rwa [h] at hstop

private theorem getLast?_rdropWhile {c : Char} (h : (text.rdropWhile p).getLast? = some c) :
    p c = false := by
  have hne : text.rdropWhile p ≠ [] := by
    intro hnil
    rw [hnil] at h
    cases h
  have hlast := List.rdropWhile_last_not p text hne
  rw [List.getLast?_eq_some_getLast hne] at h
  rwa [Option.some.inj h, Bool.not_eq_true] at hlast

/-- A text without gaps is trimmed. -/
theorem trimmed_of_all (h : ∀ c ∈ text, p c = false) : Trimmed p text where
  head c hc := h c (List.mem_of_head? hc)
  last c hc := h c (List.mem_of_getLast? hc)

/-- The first character of a beginning is that of the text. -/
theorem head?_mono {first : List Char} {c : Char} (h : first <+: text)
    (hc : first.head? = some c) : text.head? = some c := by
  obtain ⟨rest, rfl⟩ := h
  rw [List.head?_append, hc]
  rfl

/-- The last character of an end is that of the text. -/
theorem getLast?_mono {last : List Char} {c : Char} (h : last <:+ text)
    (hc : last.getLast? = some c) : text.getLast? = some c := by
  obtain ⟨before, rfl⟩ := h
  rw [List.getLast?_append, hc]
  rfl

/-- Trimming trims. -/
theorem trimmed_trimMatches (p : Char → Bool) (text : List Char) :
    Trimmed p (trimMatches p text) where
  head _ hc := by
    have hstart := List.rdropWhile_prefix p (text.dropWhile p)
    exact head?_dropWhile (head?_mono hstart hc)
  last _ hc := getLast?_rdropWhile hc

/-- What is left is a part of the text. -/
theorem trimMatches_isInfix (p : Char → Bool) (text : List Char) : trimMatches p text <:+: text := by
  have hstart := List.rdropWhile_prefix p (text.dropWhile p)
  exact hstart.isInfix.trans (List.dropWhile_suffix p).isInfix

end Trim

end Base
