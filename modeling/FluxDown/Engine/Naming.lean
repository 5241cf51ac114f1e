import FluxDown.Base.Utf8
import FluxDown.Link.Text

/-!
# Names of files

Library `Engine`. A name from the network becomes one component of a path: characters are replaced
or removed, the ends are trimmed, names of devices get an underscore, and a long name is cut before
its extension. The cut comes last, and can leave a name of a device or an extension that is too
long; for all other names the result is safe and stays as it is when it is cleaned again.
-/

namespace Engine.Naming

open Base Link

/-- The most bytes of a name (`src/native/engine/src/naming/sanitize.rs:3–10`). -/
def maxFilenameBytes : Nat := 200

/-- Names of devices (`sanitize.rs:12–19`). -/
def windowsReservedNames : List String :=
  ["CON", "PRN", "AUX", "NUL", "COM1", "COM2", "COM3", "COM4", "COM5", "COM6", "COM7", "COM8",
    "COM9", "LPT1", "LPT2", "LPT3", "LPT4", "LPT5", "LPT6", "LPT7", "LPT8", "LPT9"]

/-- The text is the name of a device, in letters of either case. -/
def isReserved (stem : List Char) : Bool :=
  windowsReservedNames.any fun name ↦ stem.map Char.toLower = name.toList.map Char.toLower

/-- Characters that are replaced, removed or kept (`sanitize.rs:31–46`). -/
def replaced (c : Char) : Option Char :=
  if c ∈ ['<', '>', ':', '"', '/', '\\', '|', '?', '*'] then some '_'
  else if isControl c then some '_'
  else if isBidiControl c then some '_'
  else if c.toNat ∈ [0xFEFF, 0x200B] then none
  else some c

/-- Dots and spaces, which a name has at neither end. -/
def isDotOrSpace (c : Char) : Bool := c = '.' || c = ' '

/-- Replace characters and trim (`sanitize.rs:30–48`). -/
def cleaned (name : List Char) : List Char := trimMatches isDotOrSpace (name.filterMap replaced)

/-- An underscore before the name of a device (`sanitize.rs:53–64`). -/
def guarded (name : List Char) : List Char :=
  if isReserved (name.takeWhile (· ≠ '.')) then '_' :: name else name

/-- Before the last dot, and from it on (`sanitize.rs:70–72`). -/
def splitExtension (name : List Char) : List Char × List Char :=
  match name.reverse.dropWhile (· ≠ '.') with
  | [] => (name, [])
  | _ :: before => (before.reverse, '.' :: (name.reverse.takeWhile (· ≠ '.')).reverse)

/-- Cut a long name before its extension (`sanitize.rs:69–87`). -/
def shortened (name : List Char) : List Char :=
  let (stem, extension) := splitExtension name
  let budget := maxFilenameBytes - utf8Len extension
  let cut := (((charIndices 0 stem).takeWhile (· ≤ budget)).getLast?).getD 0
  let truncated := trimMatches isDotOrSpace (fitting cut stem ++ extension)
  if truncated.isEmpty then "download".toList else truncated

/-- The name of a file (`sanitize.rs:21–87`), by characters. -/
def sanitize (name : List Char) : List Char :=
  let name := cleaned name
  if name.isEmpty then "download".toList
  else
    let name := guarded name
    if utf8Len name ≤ maxFilenameBytes then name else shortened name

/-- The name of a file (`sanitize.rs:21–87`). -/
def sanitizeFilename (name : String) : String := String.ofList (sanitize name.toList)

/-- A character that a name may have. -/
def isClean (c : Char) : Bool :=
  c ∉ ['<', '>', ':', '"', '/', '\\', '|', '?', '*'] && !isControl c && !isBidiControl c &&
    c.toNat ∉ [0xFEFF, 0x200B]

/-- One safe component of a path. -/
structure SafeComponent (name : List Char) : Prop where
  nonempty : name ≠ []
  short : utf8Len name ≤ maxFilenameBytes
  clean : ∀ c ∈ name, isClean c = true
  trimmed : Trimmed isDotOrSpace name
  notReserved : isReserved (name.takeWhile (· ≠ '.')) = false

/-! ## Cleaning -/

private theorem replaced_eq_some {c : Char} (h : isClean c = true) : replaced c = some c := by
  simp only [isClean, Bool.and_eq_true, decide_eq_true_eq, Bool.not_eq_true'] at h
  obtain ⟨⟨⟨hillegal, hcontrol⟩, hbidi⟩, hinvisible⟩ := h
  rw [replaced, if_neg hillegal, if_neg (Bool.eq_false_iff.mp hcontrol),
    if_neg (Bool.eq_false_iff.mp hbidi), if_neg hinvisible]

private theorem isClean_of_replaced {c d : Char} (h : replaced c = some d) : isClean d = true := by
  have hunderscore : isClean '_' = true := by decide
  unfold replaced at h
  split at h
  · rwa [← Option.some.inj h]
  · next hillegal =>
    split at h
    · rwa [← Option.some.inj h]
    · next hcontrol =>
      split at h
      · rwa [← Option.some.inj h]
      · next hbidi =>
        split at h
        · cases h
        · next hinvisible =>
          obtain rfl := Option.some.inj h
          simp [isClean, hillegal, hcontrol, hbidi, hinvisible]

private theorem clean_cleaned (name : List Char) : ∀ c ∈ cleaned name, isClean c = true := by
  intro c hc
  obtain ⟨d, -, hd⟩ := List.mem_filterMap.mp ((trimMatches_isInfix _ _).subset hc)
  exact isClean_of_replaced hd

private theorem cleaned_eq_self {name : List Char} (hclean : ∀ c ∈ name, isClean c = true)
    (htrimmed : Trimmed isDotOrSpace name) : cleaned name = name := by
  have hfilter : name.filterMap replaced = name := by
    rw [List.filterMap_congr fun c hc ↦ replaced_eq_some (hclean c hc), List.filterMap_some]
  rw [cleaned, hfilter, htrimmed.trimMatches_eq]

/-! ## Names of devices -/

private theorem reserved_characters : ∀ name ∈ windowsReservedNames,
    name.toList ≠ [] ∧ ∀ c ∈ name.toList.map Char.toLower, c ≠ '.' ∧ c ≠ ' ' ∧ c ≠ '_' := by
  have hall : ∀ name ∈ windowsReservedNames, name.toList ≠ [] ∧
      ((name.toList.map Char.toLower).all fun c ↦ decide (c ≠ '.' ∧ c ≠ ' ' ∧ c ≠ '_')) = true := by
    decide +kernel
  exact fun name hname ↦ (hall name hname).imp_right forall_mem_of_all

private theorem ne_nil_of_isReserved {stem : List Char} (h : isReserved stem = true) :
    stem ≠ [] := by
  obtain ⟨name, hname, heq⟩ := List.any_eq_true.mp h
  rintro rfl
  exact (reserved_characters name hname).1 (List.map_eq_nil_iff.mp (of_decide_eq_true heq).symm)

private theorem character_of_isReserved {stem : List Char} (h : isReserved stem = true) :
    ∀ c ∈ stem, c ≠ '.' ∧ c ≠ ' ' ∧ c ≠ '_' := by
  obtain ⟨name, hname, heq⟩ := List.any_eq_true.mp h
  intro c hc
  have hlower : c.toLower ∈ name.toList.map Char.toLower := by
    rw [← of_decide_eq_true heq]
    exact List.mem_map_of_mem hc
  obtain ⟨hdot, hspace, hunderscore⟩ := (reserved_characters name hname).2 _ hlower
  refine ⟨?_, ?_, ?_⟩
  · rintro rfl
    exact hdot rfl
  · rintro rfl
    exact hspace rfl
  · rintro rfl
    exact hunderscore rfl

private theorem isReserved_underscore (stem : List Char) : isReserved ('_' :: stem) = false := by
  apply Bool.eq_false_iff.mpr
  intro h
  exact (character_of_isReserved h '_' List.mem_cons_self).2.2 rfl

private theorem notDotOrSpace_of_isReserved {stem : List Char} (h : isReserved stem = true) :
    ∀ c ∈ stem, isDotOrSpace c = false := by
  intro c hc
  obtain ⟨hdot, hspace, -⟩ := character_of_isReserved h c hc
  simp [isDotOrSpace, hdot, hspace]

private theorem takeWhile_of_isReserved {stem : List Char} (h : isReserved stem = true) :
    stem.takeWhile (· ≠ '.') = stem := by
  apply List.takeWhile_eq_self_iff.mpr
  intro c hc
  simpa using (character_of_isReserved h c hc).1

/-! ## The underscore -/

private theorem guarded_of_not_reserved {name : List Char}
    (h : isReserved (name.takeWhile (· ≠ '.')) = false) : guarded name = name := by
  rw [guarded, if_neg (Bool.eq_false_iff.mp h)]

private theorem notReserved_guarded (name : List Char) :
    isReserved ((guarded name).takeWhile (· ≠ '.')) = false := by
  rw [guarded]
  split
  · rw [List.takeWhile_cons_of_pos (by decide)]
    exact isReserved_underscore _
  · next h => exact Bool.eq_false_iff.mpr h

private theorem clean_guarded {name : List Char} (hclean : ∀ c ∈ name, isClean c = true) :
    ∀ c ∈ guarded name, isClean c = true := by
  rw [guarded]
  split
  · intro c hc
    rcases List.mem_cons.mp hc with rfl | hc
    · decide
    · exact hclean c hc
  · exact hclean

private theorem guarded_ne_nil {name : List Char} (h : name ≠ []) : guarded name ≠ [] := by
  rw [guarded]
  split
  · exact List.cons_ne_nil _ _
  · exact h

private theorem trimmed_guarded {name : List Char} (htrimmed : Trimmed isDotOrSpace name) :
    Trimmed isDotOrSpace (guarded name) := by
  rw [guarded]
  split
  · constructor
    · intro c hc
      obtain rfl := Option.some.inj hc
      decide
    · intro c hc
      rw [List.getLast?_cons] at hc
      cases hlast : name.getLast? with
      | none =>
        rw [hlast] at hc
        obtain rfl := Option.some.inj hc
        decide
      | some d =>
        rw [hlast] at hc
        obtain rfl := Option.some.inj hc
        exact htrimmed.last d hlast
  · exact htrimmed

/-! ## The extension -/

private theorem splitExtension_append (name : List Char) :
    (splitExtension name).1 ++ (splitExtension name).2 = name := by
  have hsplit := List.takeWhile_append_dropWhile (p := (· ≠ '.')) (l := name.reverse)
  rw [splitExtension]
  split
  · exact List.append_nil name
  · next dot before hdrop =>
    have hdot : dot = '.' := by
      have hstop := List.head?_dropWhile_not (· ≠ '.') name.reverse
      rw [hdrop] at hstop
      simpa using hstop
    rw [hdrop, hdot] at hsplit
    calc before.reverse ++ '.' :: (name.reverse.takeWhile (· ≠ '.')).reverse
        = (name.reverse.takeWhile (· ≠ '.') ++ '.' :: before).reverse := by simp
      _ = name := by rw [hsplit, List.reverse_reverse]

/-- An extension is empty, or a dot and characters that are no dots. -/
theorem extension_cases (name : List Char) :
    ((splitExtension name).2 = [] ∧ '.' ∉ name) ∨
      ∃ rest, (splitExtension name).2 = '.' :: rest ∧ '.' ∉ rest := by
  rw [splitExtension]
  split
  · next hdrop =>
    left
    refine ⟨rfl, fun hdot ↦ ?_⟩
    have hall := List.dropWhile_eq_nil_iff.mp hdrop '.' (List.mem_reverse.mpr hdot)
    simp at hall
  · right
    refine ⟨_, rfl, fun hdot ↦ ?_⟩
    have hall := List.mem_takeWhile_imp (List.mem_reverse.mp hdot)
    simp at hall

/-! ## The cut -/

/-- The part of the stem that is kept. -/
def kept (name : List Char) : List Char :=
  fitting (maxFilenameBytes - utf8Len (splitExtension name).2) (splitExtension name).1

section Cut

variable {name : List Char}

/-- The extension of a trimmed name does not end it with a dot or begin it. -/
theorem stem_ne_nil (htrimmed : Trimmed isDotOrSpace name) (hne : name ≠ []) :
    (splitExtension name).1 ≠ [] := by
  intro hstem
  have happend := splitExtension_append name
  rw [hstem, List.nil_append] at happend
  rcases extension_cases name with ⟨hext, -⟩ | ⟨rest, hext, -⟩
  · exact hne (happend.symm.trans hext)
  · have hhead := htrimmed.head '.' (by rw [← happend, hext]; rfl)
    exact Bool.noConfusion hhead

/-- A name that is cut has a stem that is longer than its part of the budget. -/
theorem budget_lt (htrimmed : Trimmed isDotOrSpace name) (hlong : maxFilenameBytes < utf8Len name) :
    maxFilenameBytes - utf8Len (splitExtension name).2 < utf8Len (splitExtension name).1 := by
  have hne : name ≠ [] := by
    rintro rfl
    exact absurd hlong (Nat.not_lt_zero _)
  have hstem := utf8Len_pos (stem_ne_nil htrimmed hne)
  rw [← splitExtension_append name, utf8Len_append] at hlong
  omega

/-- What is kept is followed by a character that does not fit. -/
theorem kept_split (htrimmed : Trimmed isDotOrSpace name)
    (hlong : maxFilenameBytes < utf8Len name) :
    ∃ c rest, (splitExtension name).1 = kept name ++ c :: rest ∧
      utf8Len (kept name) ≤ maxFilenameBytes - utf8Len (splitExtension name).2 ∧
      maxFilenameBytes < utf8Len (kept name) + c.utf8Size + utf8Len (splitExtension name).2 := by
  obtain ⟨c, rest, hstem, hle, hlt⟩ := fitting_split (budget_lt htrimmed hlong)
  refine ⟨c, rest, hstem, hle, ?_⟩
  change maxFilenameBytes - _ < utf8Len (kept name) + c.utf8Size at hlt
  omega

private theorem kept_isStart (htrimmed : Trimmed isDotOrSpace name)
    (hlong : maxFilenameBytes < utf8Len name) : kept name <+: name := by
  obtain ⟨c, rest, hstem, -, -⟩ := kept_split htrimmed hlong
  have hname := splitExtension_append name
  rw [hstem, List.append_assoc] at hname
  exact ⟨_, hname⟩

private theorem extension_suffix (name : List Char) : (splitExtension name).2 <:+ name :=
  ⟨_, splitExtension_append name⟩

private theorem fits_of_kept (htrimmed : Trimmed isDotOrSpace name)
    (hlong : maxFilenameBytes < utf8Len name) (hkept : kept name ≠ []) :
    utf8Len (kept name ++ (splitExtension name).2) ≤ maxFilenameBytes := by
  obtain ⟨-, -, -, hle, -⟩ := kept_split htrimmed hlong
  have hpos := utf8Len_pos hkept
  rw [utf8Len_append]
  omega

private theorem shortened_eq (htrimmed : Trimmed isDotOrSpace name)
    (hlong : maxFilenameBytes < utf8Len name) :
    shortened name =
      if (trimMatches isDotOrSpace (kept name ++ (splitExtension name).2)).isEmpty then
        "download".toList
      else trimMatches isDotOrSpace (kept name ++ (splitExtension name).2) := by
  have hbudget := budget_lt htrimmed hlong
  have hcut : ((charIndices 0 (splitExtension name).1).takeWhile
      (· ≤ maxFilenameBytes - utf8Len (splitExtension name).2)).getLast? =
        some (utf8Len (kept name)) := by
    rw [kept]
    simpa only [Nat.zero_add] using getLast?_charIndices 0 hbudget
  have hkept : fitting (utf8Len (kept name)) (splitExtension name).1 = kept name := by
    obtain ⟨c, rest, hstem, -, -⟩ := kept_split htrimmed hlong
    rw [hstem]
    exact fitting_eq (Nat.le_refl _) (Nat.lt_add_of_pos_right c.utf8Size_pos)
  simp only [shortened]
  rw [hcut, Option.getD_some, hkept]

/-- Before an extension, a part of the stem is not trimmed. -/
theorem trimmed_kept_extension (htrimmed : Trimmed isDotOrSpace name)
    (hlong : maxFilenameBytes < utf8Len name) (hkept : kept name ≠ [])
    (hext : (splitExtension name).2 ≠ []) :
    Trimmed isDotOrSpace (kept name ++ (splitExtension name).2) := by
  constructor
  · intro d hd
    rw [List.head?_append_of_ne_nil _ hkept] at hd
    exact htrimmed.head d (head?_mono (kept_isStart htrimmed hlong) hd)
  · intro d hd
    rw [List.getLast?_append_of_ne_nil _ hext] at hd
    exact htrimmed.last d (getLast?_mono (extension_suffix name) hd)

/-- Without an extension, only the end is trimmed. -/
theorem trimMatches_kept (htrimmed : Trimmed isDotOrSpace name)
    (hlong : maxFilenameBytes < utf8Len name) :
    trimMatches isDotOrSpace (kept name) = (kept name).rdropWhile isDotOrSpace := by
  rw [trimMatches]
  congr 1
  cases hkept : kept name with
  | nil => rfl
  | cons c rest =>
    apply List.dropWhile_cons_of_neg
    have hstart := kept_isStart htrimmed hlong
    rw [htrimmed.head c (head?_mono hstart (by rw [hkept]; rfl))]
    exact Bool.false_ne_true

private theorem kept_extension_ne_nil (htrimmed : Trimmed isDotOrSpace name)
    (hlong : maxFilenameBytes < utf8Len name) :
    trimMatches isDotOrSpace (kept name ++ (splitExtension name).2) ≠ [] := by
  have hsize (c : Char) : c.utf8Size ≤ 4 := c.utf8Size_le_four
  intro hnil
  by_cases hkept : kept name = []
  · -- the extension is long, and its last character is that of the name
    obtain ⟨c, rest, hstem, -, hlt⟩ := kept_split htrimmed hlong
    have hext : (splitExtension name).2 ≠ [] := by
      intro hext
      rw [hkept, hext] at hlt
      have := hsize c
      simp [maxFilenameBytes] at hlt
      omega
    rw [hkept, List.nil_append, trimMatches, List.rdropWhile_eq_nil_iff] at hnil
    have hlast := List.getLast?_eq_some_getLast hext
    have hkind := htrimmed.last _ (getLast?_mono (extension_suffix name) hlast)
    have hall : ∀ d ∈ (splitExtension name).2, isDotOrSpace d = true := by
      intro d hd
      rw [← List.takeWhile_append_dropWhile (p := isDotOrSpace) (l := (splitExtension name).2)] at hd
      rcases List.mem_append.mp hd with hd | hd
      · exact List.mem_takeWhile_imp hd
      · exact hnil d hd
    rw [hall _ (List.getLast_mem hext)] at hkind
    exact Bool.noConfusion hkind
  · by_cases hext : (splitExtension name).2 = []
    · rw [hext, List.append_nil, trimMatches_kept htrimmed hlong,
        List.rdropWhile_eq_nil_iff] at hnil
      obtain ⟨c, rest, hc⟩ := List.exists_cons_of_ne_nil hkept
      have hhead : (kept name).head? = some c := by rw [hc]; rfl
      have hkind := htrimmed.head c (head?_mono (kept_isStart htrimmed hlong) hhead)
      rw [hnil c (List.mem_of_head? hhead)] at hkind
      exact Bool.noConfusion hkind
    · rw [(trimmed_kept_extension htrimmed hlong hkept hext).trimMatches_eq] at hnil
      exact hkept (List.append_eq_nil_iff.mp hnil).1

/-- A long name is the kept part and the extension, trimmed. -/
theorem shortened_eq_trimMatches (htrimmed : Trimmed isDotOrSpace name)
    (hlong : maxFilenameBytes < utf8Len name) :
    shortened name = trimMatches isDotOrSpace (kept name ++ (splitExtension name).2) := by
  rw [shortened_eq htrimmed hlong, if_neg]
  simpa using kept_extension_ne_nil htrimmed hlong

end Cut

/-- The cut of a name leaves it safe: its extension fits and is not the name of a device where
nothing else is kept, and the cut is not right after the name of a device. -/
structure ShortensWell (name : List Char) : Prop where
  extensionFits :
    utf8Len (trimMatches isDotOrSpace (splitExtension name).2) ≤ maxFilenameBytes
  bareExtension : isReserved (trimMatches isDotOrSpace (splitExtension name).2) = true →
    ∃ c, (splitExtension name).1.head? = some c ∧
      c.utf8Size + utf8Len (splitExtension name).2 ≤ maxFilenameBytes
  cut (device gap : List Char) (c : Char) (rest : List Char) :
    (splitExtension name).1 = device ++ gap ++ c :: rest → isReserved device = true →
    (∀ d ∈ gap, isDotOrSpace d = true) → ((splitExtension name).2 ≠ [] → gap = []) →
    utf8Len (device ++ gap) + utf8Len (splitExtension name).2 ≤ maxFilenameBytes →
    utf8Len (device ++ gap) + c.utf8Size + utf8Len (splitExtension name).2 ≤ maxFilenameBytes

section Shortened

variable {name : List Char}

private theorem dot_not_mem_trimmed_extension (name : List Char) :
    (trimMatches isDotOrSpace (splitExtension name).2).takeWhile (· ≠ '.') =
      trimMatches isDotOrSpace (splitExtension name).2 := by
  apply List.takeWhile_eq_self_iff.mpr
  intro c hc
  rcases extension_cases name with ⟨hext, -⟩ | ⟨rest, hext, hdot⟩
  · rw [hext] at hc
    cases hc
  · -- the leading dot is trimmed, and there is no other
    have hdrop : '.' ∉ ('.' :: rest).dropWhile isDotOrSpace := by
      rw [List.dropWhile_cons_of_pos (by decide)]
      exact fun hmem ↦ hdot ((List.dropWhile_suffix _).subset hmem)
    have hstart := List.rdropWhile_prefix isDotOrSpace (('.' :: rest).dropWhile isDotOrSpace)
    rw [hext, trimMatches] at hc
    simp only [decide_eq_true_eq]
    rintro rfl
    exact hdrop (hstart.subset hc)

/-- A dot in what is kept is the first dot of the name. -/
theorem takeWhile_kept_of_dot (htrimmed : Trimmed isDotOrSpace name)
    (hlong : maxFilenameBytes < utf8Len name) (hdot : '.' ∈ kept name) (extension : List Char) :
    (kept name ++ extension).takeWhile (· ≠ '.') = name.takeWhile (· ≠ '.') := by
  have hp : decide (('.' : Char) ≠ '.') = false := by decide
  obtain ⟨rest, hname⟩ := kept_isStart htrimmed hlong
  calc (kept name ++ extension).takeWhile (· ≠ '.')
      = (kept name).takeWhile (· ≠ '.') := takeWhile_append_of_mem hdot hp
    _ = (kept name ++ rest).takeWhile (· ≠ '.') := (takeWhile_append_of_mem hdot hp).symm
    _ = name.takeWhile (· ≠ '.') := by rw [hname]

/-- Text without dots before an extension. -/
theorem takeWhile_append_extension {text : List Char} (hdot : '.' ∉ text)
    (hext : (splitExtension name).2 ≠ []) :
    (text ++ (splitExtension name).2).takeWhile (· ≠ '.') = text := by
  rcases extension_cases name with ⟨hnone, -⟩ | ⟨rest, hsome, -⟩
  · exact absurd hnone hext
  · rw [hsome, List.takeWhile_append_of_pos, List.takeWhile_cons_of_neg, List.append_nil]
    · simp
    · intro c hc
      simp only [decide_eq_true_eq]
      rintro rfl
      exact hdot hc

/-- Where nothing before the extension is kept, the name is the extension without its dot. -/
theorem notReserved_of_bare (h : ShortensWell name) (htrimmed : Trimmed isDotOrSpace name)
    (hlong : maxFilenameBytes < utf8Len name) (hkept : kept name = []) :
    isReserved ((trimMatches isDotOrSpace (splitExtension name).2).takeWhile (· ≠ '.')) =
      false := by
  rw [dot_not_mem_trimmed_extension]
  apply Bool.eq_false_iff.mpr
  intro hreserved
  obtain ⟨c, hc, hfits⟩ := h.bareExtension hreserved
  obtain ⟨d, rest, hstem, -, hlt⟩ := kept_split htrimmed hlong
  rw [hkept, List.nil_append] at hstem
  rw [hstem] at hc
  obtain rfl := Option.some.inj hc
  rw [hkept, utf8Len_nil] at hlt
  omega

/-- Where the cut is in a stem before an extension. -/
theorem notReserved_of_extension (h : ShortensWell name) (htrimmed : Trimmed isDotOrSpace name)
    (hlong : maxFilenameBytes < utf8Len name) (hext : (splitExtension name).2 ≠ [])
    (hname : isReserved (name.takeWhile (· ≠ '.')) = false) (hkept : kept name ≠ []) :
    isReserved ((kept name ++ (splitExtension name).2).takeWhile (· ≠ '.')) = false := by
  by_cases hdot : '.' ∈ kept name
  · rw [takeWhile_kept_of_dot htrimmed hlong hdot]
    exact hname
  · rw [takeWhile_append_extension hdot hext]
    apply Bool.eq_false_iff.mpr
    intro hreserved
    obtain ⟨c, rest, hstem, hle, hlt⟩ := kept_split htrimmed hlong
    have hfits := fits_of_kept htrimmed hlong hkept
    rw [utf8Len_append] at hfits
    have := h.cut (kept name) [] c rest (by rw [List.append_nil, hstem]) hreserved
      (fun d hd ↦ absurd hd List.not_mem_nil) (fun _ ↦ rfl) (by rwa [List.append_nil])
    rw [List.append_nil] at this
    omega

/-- Where the cut is in a name without an extension. -/
theorem notReserved_of_no_extension (h : ShortensWell name)
    (htrimmed : Trimmed isDotOrSpace name) (hlong : maxFilenameBytes < utf8Len name)
    (hext : (splitExtension name).2 = []) (hkept : kept name ≠ []) :
    isReserved ((trimMatches isDotOrSpace (kept name)).takeWhile (· ≠ '.')) = false := by
  rw [trimMatches_kept htrimmed hlong]
  apply Bool.eq_false_iff.mpr
  intro hreserved
  obtain ⟨c, rest, hstem, hle, hlt⟩ := kept_split htrimmed hlong
  have hfits := fits_of_kept htrimmed hlong hkept
  have hdot : '.' ∉ name := by
    rcases extension_cases name with ⟨-, hdot⟩ | ⟨rest, hsome, -⟩
    · exact hdot
    · rw [hext] at hsome
      cases hsome
  have hdevice : (kept name).rdropWhile isDotOrSpace ++ (kept name).rtakeWhile isDotOrSpace =
      kept name := List.rdropWhile_append_rtakeWhile
  have hstart := List.rdropWhile_prefix isDotOrSpace (kept name)
  have hself : ((kept name).rdropWhile isDotOrSpace).takeWhile (· ≠ '.') =
      (kept name).rdropWhile isDotOrSpace := by
    apply List.takeWhile_eq_self_iff.mpr
    intro d hd
    simp only [decide_eq_true_eq]
    rintro rfl
    exact hdot ((hstart.trans (kept_isStart htrimmed hlong)).subset hd)
  rw [hself] at hreserved
  rw [hext, List.append_nil] at hfits
  have := h.cut ((kept name).rdropWhile isDotOrSpace) ((kept name).rtakeWhile isDotOrSpace) c rest
    (by rw [hdevice, hstem]) hreserved (fun d hd ↦ List.mem_rtakeWhile_imp hd)
    (fun hne ↦ absurd hext hne) (by rwa [hdevice, hext, utf8Len_nil, Nat.add_zero])
  rw [hdevice] at this
  omega

/-- The result where the cut is right after the name of a device. -/
theorem shortened_of_device {device gap : List Char} {c : Char} {rest : List Char}
    (htrimmed : Trimmed isDotOrSpace name) (hlong : maxFilenameBytes < utf8Len name)
    (hstem : (splitExtension name).1 = device ++ gap ++ c :: rest)
    (hreserved : isReserved device = true) (hgap : ∀ d ∈ gap, isDotOrSpace d = true)
    (hext : (splitExtension name).2 ≠ [] → gap = [])
    (hfits : utf8Len (device ++ gap) + utf8Len (splitExtension name).2 ≤ maxFilenameBytes)
    (hcut : maxFilenameBytes <
      utf8Len (device ++ gap) + c.utf8Size + utf8Len (splitExtension name).2) :
    (shortened name).takeWhile (· ≠ '.') = device := by
  have hkept : kept name = device ++ gap := by
    rw [kept, hstem]
    exact fitting_eq (by omega) (by omega)
  rw [shortened_eq_trimMatches htrimmed hlong]
  by_cases hnone : (splitExtension name).2 = []
  · rw [hnone, List.append_nil, trimMatches_kept htrimmed hlong, hkept,
      rdropWhile_append_of_all hgap,
      rdropWhile_eq_self (trimmed_of_all (notDotOrSpace_of_isReserved hreserved)).last]
    exact takeWhile_of_isReserved hreserved
  · have hdevice : kept name = device := by rw [hkept, hext hnone, List.append_nil]
    have hne : kept name ≠ [] := by
      rw [hdevice]
      exact ne_nil_of_isReserved hreserved
    rw [(trimmed_kept_extension htrimmed hlong hne hnone).trimMatches_eq, hdevice]
    exact takeWhile_append_extension
      (fun hdot ↦ (character_of_isReserved hreserved _ hdot).1 rfl) hnone

private theorem safeComponent_shortened (h : ShortensWell name)
    (hclean : ∀ c ∈ name, isClean c = true)
    (htrimmed : Trimmed isDotOrSpace name) (hlong : maxFilenameBytes < utf8Len name)
    (hname : isReserved (name.takeWhile (· ≠ '.')) = false) :
    SafeComponent (shortened name) := by
  rw [shortened_eq_trimMatches htrimmed hlong]
  constructor
  case nonempty => exact kept_extension_ne_nil htrimmed hlong
  case short =>
    by_cases hkept : kept name = []
    · rw [hkept, List.nil_append]
      exact h.extensionFits
    · have hfits := fits_of_kept htrimmed hlong hkept
      exact (utf8Len_le_of_isInfix (trimMatches_isInfix _ _)).trans hfits
  case clean =>
    intro c hc
    apply hclean
    rcases List.mem_append.mp ((trimMatches_isInfix _ _).subset hc) with hc | hc
    · exact (kept_isStart htrimmed hlong).subset hc
    · exact (extension_suffix name).subset hc
  case trimmed => exact trimmed_trimMatches _ _
  case notReserved =>
    by_cases hkept : kept name = []
    · rw [hkept, List.nil_append]
      exact notReserved_of_bare h htrimmed hlong hkept
    · by_cases hext : (splitExtension name).2 = []
      · rw [hext, List.append_nil]
        exact notReserved_of_no_extension h htrimmed hlong hext hkept
      · rw [(trimmed_kept_extension htrimmed hlong hkept hext).trimMatches_eq]
        exact notReserved_of_extension h htrimmed hlong hext hname hkept

private theorem shortensWell_of_safeComponent (htrimmed : Trimmed isDotOrSpace name)
    (hlong : maxFilenameBytes < utf8Len name) (h : SafeComponent (shortened name)) :
    ShortensWell name := by
  obtain ⟨c, rest, hstem, hle, hlt⟩ := kept_split htrimmed hlong
  have hresult := shortened_eq_trimMatches htrimmed hlong
  constructor
  case extensionFits =>
    by_cases hkept : kept name = []
    · rw [hkept, List.nil_append] at hresult
      rw [← hresult]
      exact h.short
    · have hfits := fits_of_kept htrimmed hlong hkept
      have htrim := utf8Len_le_of_isInfix (trimMatches_isInfix isDotOrSpace (splitExtension name).2)
      rw [utf8Len_append] at hfits
      omega
  case bareExtension =>
    intro hreserved
    cases hkept : kept name with
    | nil =>
      have hnot := h.notReserved
      rw [hresult, hkept, List.nil_append, dot_not_mem_trimmed_extension, hreserved] at hnot
      exact Bool.noConfusion hnot
    | cons d more =>
      have hfits := fits_of_kept htrimmed hlong (by rw [hkept]; exact List.cons_ne_nil _ _)
      refine ⟨d, by rw [hstem, hkept]; rfl, ?_⟩
      rw [hkept, List.cons_append, utf8Len_cons, utf8Len_append] at hfits
      omega
  case cut =>
    intro device gap d more hdevice hreserved hgap hext hfits
    by_contra hcut
    have hnot := h.notReserved
    rw [shortened_of_device htrimmed hlong hdevice hreserved hgap hext hfits (by omega),
      hreserved] at hnot
    exact Bool.noConfusion hnot

end Shortened

/-! ## All names -/

private theorem safeComponent_download : SafeComponent "download".toList where
  nonempty := by decide
  short := by decide
  clean := forall_mem_of_all (by decide +kernel)
  trimmed := ⟨fun c hc ↦ by cases hc; rfl, fun c hc ↦ by cases hc; rfl⟩
  notReserved := by decide +kernel

/-- A safe component stays as it is. -/
theorem SafeComponent.sanitize_eq {name : List Char} (h : SafeComponent name) :
    sanitize name = name := by
  simp only [sanitize]
  rw [cleaned_eq_self h.clean h.trimmed, guarded_of_not_reserved h.notReserved, if_neg, if_pos]
  · exact h.short
  · simpa using h.nonempty

/-- A name that fits is safe, and a name that is cut is safe where its cut leaves it safe. -/
theorem safeComponent_sanitize_iff (name : List Char) :
    SafeComponent (sanitize name) ↔
      (utf8Len (guarded (cleaned name)) ≤ maxFilenameBytes ∨
        ShortensWell (guarded (cleaned name))) := by
  have hclean := clean_guarded (clean_cleaned name)
  have htrimmed : Trimmed isDotOrSpace (guarded (cleaned name)) :=
    trimmed_guarded (trimmed_trimMatches _ _)
  have hname := notReserved_guarded (cleaned name)
  simp only [sanitize]
  by_cases hempty : cleaned name = []
  · have hfits : utf8Len (guarded (cleaned name)) ≤ maxFilenameBytes := by
      rw [hempty]
      decide +kernel
    rw [if_pos (by rw [hempty]; rfl)]
    exact iff_of_true safeComponent_download (.inl hfits)
  · rw [if_neg (by simpa using hempty)]
    by_cases hfits : utf8Len (guarded (cleaned name)) ≤ maxFilenameBytes
    · rw [if_pos hfits]
      exact iff_of_true ⟨guarded_ne_nil hempty, hfits, hclean, htrimmed, hname⟩ (.inl hfits)
    · rw [if_neg hfits, or_iff_right hfits]
      have hlong := not_le.mp hfits
      exact ⟨shortensWell_of_safeComponent htrimmed hlong,
        fun h ↦ safeComponent_shortened h hclean htrimmed hlong hname⟩

/-- The name of a file is one safe component of a path, and stays as it is when it is cleaned again,
exactly where it fits or its cut leaves it safe. -/
theorem sanitizeFilename_safe_iff (s : String) :
    (SafeComponent (sanitizeFilename s).toList ∧
        sanitizeFilename (sanitizeFilename s) = sanitizeFilename s) ↔
      (utf8Len (guarded (cleaned s.toList)) ≤ maxFilenameBytes ∨
        ShortensWell (guarded (cleaned s.toList))) := by
  rw [← safeComponent_sanitize_iff, sanitizeFilename, String.toList_ofList]
  constructor
  · exact And.left
  · intro h
    refine ⟨h, ?_⟩
    rw [sanitizeFilename, String.toList_ofList, h.sanitize_eq]

/-- An extension of 300 bytes is not cut. -/
theorem sanitizeFilename_unsafe : ¬ ∀ s : String,
    SafeComponent (sanitizeFilename s).toList ∧
      sanitizeFilename (sanitizeFilename s) = sanitizeFilename s := by
  intro h
  have hlong : ¬ utf8Len (sanitize ('a' :: '.' :: List.replicate 300 'b')) ≤ maxFilenameBytes := by
    decide +kernel
  have hshort := (h (String.ofList ('a' :: '.' :: List.replicate 300 'b'))).1.short
  rw [sanitizeFilename, String.toList_ofList, String.toList_ofList] at hshort
  exact hlong hshort

example : sanitizeFilename ".. NuL.tar<gz " = "_NuL.tar_gz" := by decide +kernel

end Engine.Naming
