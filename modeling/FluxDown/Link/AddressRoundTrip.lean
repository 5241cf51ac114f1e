import FluxDown.Base.Utf8
import FluxDown.Link.Address

/-!
# Addresses are read back

Library `Link`. Both forms in which an address is written parse to the address they were written
from, so equal forms come from equal addresses. The host has no brackets and no character that ends
it, the port is never zero, and the base path begins with a slash and does not end with one.
-/

namespace Link

/-! ## Splitting -/

/-- A text is split at the separator that was put in. -/
theorem splitOnce_append {separator before : List Char} {c : Char} (h : c ∉ before)
    (after : List Char) (hsep : separator.head? = some c) :
    splitOnce separator (before ++ separator ++ after) = some (before, after) := by
  obtain ⟨rest, rfl⟩ : ∃ rest, separator = c :: rest := by
    cases separator with
    | nil => cases hsep
    | cons d rest =>
      obtain rfl : d = c := Option.some.inj hsep
      exact ⟨rest, rfl⟩
  induction before with
  | nil =>
    have hstart : (c :: rest).isPrefixOf (c :: (rest ++ after)) = true := by
      rw [List.isPrefixOf_iff_prefix]
      exact ⟨after, rfl⟩
    rw [List.nil_append, List.cons_append, splitOnce, if_pos hstart]
    simp
  | cons b before ih =>
    have hne : ¬(c :: rest).isPrefixOf (b :: (before ++ (c :: rest) ++ after)) = true := by
      rw [List.isPrefixOf_iff_prefix]
      rintro ⟨l, hl⟩
      obtain rfl : c = b := (List.cons.inj hl).1
      exact h List.mem_cons_self
    rw [List.cons_append, List.cons_append, splitOnce, if_neg hne,
      ih (fun hmem ↦ h (List.mem_cons_of_mem b hmem)), Option.map_some]

/-- A text without the separator is not split. -/
theorem splitOnce_of_notMem {separator text : List Char} {c : Char} (hsep : c ∈ separator)
    (h : c ∉ text) : splitOnce separator text = none := by
  induction text with
  | nil =>
    cases separator with
    | nil => cases hsep
    | cons d separator => rfl
  | cons b text ih =>
    have hne : ¬separator.isPrefixOf (b :: text) = true := by
      rw [List.isPrefixOf_iff_prefix]
      exact fun hstart ↦ h (hstart.subset hsep)
    rw [splitOnce, if_neg hne, ih fun hmem ↦ h (List.mem_cons_of_mem b hmem), Option.map_none]

/-- The parts before and after a separator of one character. -/
theorem splitOnce_singleton_inv {c : Char} : ∀ {text before after : List Char},
    splitOnce [c] text = some (before, after) → text = before ++ c :: after ∧ c ∉ before
  | [], _, _, h => by simp [splitOnce] at h
  | b :: text, before, after, h => by
    rw [splitOnce] at h
    split at h
    · next hstart =>
      rw [List.isPrefixOf_iff_prefix] at hstart
      obtain ⟨l, hl⟩ := hstart
      obtain ⟨rfl, rfl⟩ := List.cons.inj hl
      obtain ⟨rfl, rfl⟩ := Prod.mk.inj (Option.some.inj h)
      simp
    · next hstart =>
      obtain ⟨⟨before', after'⟩, hrest, heq⟩ := Option.map_eq_some_iff.mp h
      obtain ⟨rfl, rfl⟩ := Prod.mk.inj heq
      obtain ⟨rfl, hnot⟩ := splitOnce_singleton_inv hrest
      refine ⟨rfl, fun hmem ↦ ?_⟩
      rcases List.mem_cons.mp hmem with rfl | hmem
      · exact hstart (by simp)
      · exact hnot hmem

private theorem drop_length_takeWhile (p : Char → Bool) (text : List Char) :
    text.drop (text.takeWhile p).length = text.dropWhile p := by
  induction text with
  | nil => rfl
  | cons c text ih =>
    by_cases h : p c = true
    · simpa [h] using ih
    · simp [h]

/-- Text without white space is not trimmed. -/
theorem trim_eq_self {text : List Char} (h : ∀ c ∈ text, isWhitespace c = false) :
    trim text = text := by
  have hdrop : ∀ l : List Char, (∀ c ∈ l, isWhitespace c = false) →
      l.dropWhile isWhitespace = l := by
    intro l hl
    cases l with
    | nil => rfl
    | cons c l =>
      apply List.dropWhile_cons_of_neg
      rw [hl c List.mem_cons_self]
      exact Bool.false_ne_true
  rw [trim, hdrop text h, hdrop, List.reverse_reverse]
  intro c hc
  exact h c (List.mem_reverse.mp hc)

/-! ## Ports -/

private theorem parseU16_of_digits {text : List Char} {value : Nat} (hnil : text ≠ [])
    (hdigits : ∀ c ∈ text, c.isDigit = true)
    (hvalue : text.foldl (fun n c ↦ n * 10 + (c.toNat - '0'.toNat)) 0 = value)
    (hlt : value < 65536) : parseU16 text = some value := by
  have hall : ¬(text.isEmpty || !text.all Char.isDigit) = true := by simpa [hnil] using hdigits
  unfold parseU16
  split
  · exact absurd (hdigits '+' List.mem_cons_self) (by decide)
  · rw [if_neg hall]
    simp only [hvalue]
    exact if_pos hlt

/-- A number that was written is read. -/
theorem parsePort_toDigits {port : Nat} (hpos : 0 < port) (hlt : port < 65536) :
    parsePort (Nat.toDigits 10 port) = .ok port := by
  have hvalue : (Nat.toDigits 10 port).foldl (fun n c ↦ n * 10 + (c.toNat - '0'.toNat)) 0 = port := by
    have h := Nat.ofDigitChars_ten_toDigits (n := port)
    rw [Nat.ofDigitChars_eq_foldl] at h
    simp only [Nat.mul_comm _ 10]
    exact h
  have hread := parseU16_of_digits Nat.toDigits_ne_nil
    (fun c hc ↦ Nat.isDigit_of_mem_toDigits (by decide) (by decide) hc) hvalue hlt
  rw [parsePort, hread, Option.filter_some, if_pos (decide_eq_true (by omega))]

private theorem parsePort_pos {text : List Char} {port : Nat} (h : parsePort text = .ok port) :
    0 < port ∧ port < 65536 := by
  unfold parsePort at h
  split at h
  · next value hvalue =>
    obtain rfl : value = port := Except.ok.inj h
    obtain ⟨hread, hne⟩ := Option.filter_eq_some_iff.mp hvalue
    have hlt : value < 65536 := by
      unfold parseU16 at hread
      split at hread
      all_goals
        simp only at hread
        split at hread
        · cases hread
        · split at hread
          · next hbound =>
            rw [← Option.some.inj hread]
            exact hbound
          · cases hread
    exact ⟨by simpa [Nat.pos_iff_ne_zero] using hne, hlt⟩
  · cases h

/-! ## Hosts -/

/-- The characters of a literal of the sixth version. -/
def isIpv6Char (c : Char) : Bool := (digitValue 16 c).isSome || c = ':' || c = '.'

/-- Reading takes characters of a literal only. -/
private def Reads (text rest : List Char) : Prop :=
  ∃ taken, text = taken ++ rest ∧ ∀ c ∈ taken, isIpv6Char c = true

private theorem Reads.refl (text : List Char) : Reads text text := ⟨[], rfl, by simp⟩

private theorem Reads.trans {text rest rest' : List Char} (h : Reads text rest)
    (h' : Reads rest rest') : Reads text rest' := by
  obtain ⟨taken, rfl, htaken⟩ := h
  obtain ⟨taken', rfl, htaken'⟩ := h'
  refine ⟨taken ++ taken', (List.append_assoc ..).symm, fun c hc ↦ ?_⟩
  rcases List.mem_append.mp hc with hc | hc
  · exact htaken c hc
  · exact htaken' c hc

private theorem Reads.separator {separator : Char} {index : Nat} {text rest : List Char}
    (hchar : isIpv6Char separator = true) (h : readSeparator separator index text = some rest) :
    Reads text rest := by
  unfold readSeparator at h
  split at h
  · rw [Option.some.inj h]
    exact .refl rest
  · split at h
    · next c text =>
      split at h
      · next hc =>
        obtain rfl := Option.some.inj h
        exact ⟨[c], rfl, by simpa [hc] using hchar⟩
      · cases h
    · cases h

private theorem isSome_digitValue {radix : Nat} (hradix : radix ≤ 16) {c : Char}
    (h : (digitValue radix c).isSome = true) : isIpv6Char c = true := by
  have hsixteen : (digitValue 16 c).isSome = true := by
    unfold digitValue at h ⊢
    generalize (if c.isDigit = true then _ else _ : Nat) = value at h ⊢
    simp only [Option.isSome_ite] at h ⊢
    omega
  rw [isIpv6Char, hsixteen, Bool.true_or, Bool.true_or]

private theorem Reads.number {radix maxDigits bound : Nat} {allowZeroPrefix : Bool}
    {text rest : List Char} {value : Nat} (hradix : radix ≤ 16)
    (h : readNumber radix maxDigits bound allowZeroPrefix text = some (value, rest)) :
    Reads text rest := by
  unfold readNumber at h
  simp only at h
  split at h
  · cases h
  · obtain ⟨-, rfl⟩ := Prod.mk.inj (Option.some.inj h)
    refine ⟨text.takeWhile fun c ↦ (digitValue radix c).isSome, ?_, fun c hc ↦ ?_⟩
    · rw [drop_length_takeWhile, List.takeWhile_append_dropWhile]
    · exact isSome_digitValue hradix
        (List.mem_takeWhile_imp (p := fun c ↦ (digitValue radix c).isSome) hc)

private theorem Reads.ipv4 {text rest : List Char} (h : readIpv4 text = some rest) :
    Reads text rest := by
  have hfold : ∀ (f : List Char → Nat → Option (List Char)),
      (∀ text index next, f text index = some next → Reads text next) →
        ∀ (indices : List Nat) {text rest : List Char},
          indices.foldlM f text = some rest → Reads text rest := by
    intro f hread indices
    induction indices with
    | nil =>
      intro text rest h
      obtain rfl : text = rest := Option.some.inj h
      exact .refl text
    | cons index indices ih =>
      intro text rest h
      rw [List.foldlM_cons] at h
      obtain ⟨next, hnext, hrest⟩ := Option.bind_eq_some_iff.mp h
      exact (hread text index next hnext).trans (ih hrest)
  apply hfold _ ?_ _ h
  intro text index next hnext
  obtain ⟨middle, hmiddle, hnumber⟩ := Option.bind_eq_some_iff.mp hnext
  obtain ⟨⟨value, after⟩, hread, hafter⟩ := Option.bind_eq_some_iff.mp hnumber
  obtain rfl : after = next := Option.some.inj hafter
  exact (Reads.separator (by decide) hmiddle).trans (.number (by decide) hread)

private theorem Reads.groups (limit : Nat) : ∀ (fuel index : Nat) (text : List Char),
    Reads text (readGroups limit fuel index text).2.2
  | 0, _, text => .refl text
  | fuel + 1, index, text => by
    rw [readGroups]
    split
    · next rest hdecimal =>
      split at hdecimal
      · obtain ⟨middle, hmiddle, hrest⟩ := Option.bind_eq_some_iff.mp hdecimal
        exact (Reads.separator (by decide) hmiddle).trans (.ipv4 hrest)
      · cases hdecimal
    · split
      · next value rest hnumber =>
        obtain ⟨middle, hmiddle, hrest⟩ := Option.bind_eq_some_iff.mp hnumber
        exact ((Reads.separator (by decide) hmiddle).trans (.number (by decide) hrest)).trans
          (Reads.groups limit fuel (index + 1) rest)
      · exact .refl text

/-- A literal has the characters of literals only. -/
theorem isIpv6Char_of_isIpv6 {text : List Char} (h : isIpv6 text = true) :
    ∀ c ∈ text, isIpv6Char c = true := by
  have hall : Reads text [] := by
    have hgroups := Reads.groups 8 8 0 text
    unfold isIpv6 at h
    simp only at h
    split at h
    · rwa [List.isEmpty_iff.mp h] at hgroups
    · split at h
      · cases h
      · split at h
        · next rest hrest =>
          rw [hrest] at hgroups
          have hcolons : Reads (':' :: ':' :: rest) rest := ⟨[':', ':'], rfl, Base.forall_mem_of_all (by decide)⟩
          have htail := Reads.groups (8 - ((readGroups 8 8 0 text).1 + 1))
            (8 - ((readGroups 8 8 0 text).1 + 1)) 0 rest
          rw [List.isEmpty_iff.mp h] at htail
          exact (hgroups.trans hcolons).trans htail
        · cases h
  obtain ⟨taken, htext, htaken⟩ := hall
  rw [htext, List.append_nil]
  exact htaken

/-- Characters between space and delete, other than those that end a host. -/
structure HostChar (c : Char) : Prop where
  graphic : 0x20 < c.toNat ∧ c.toNat < 0x7F
  inside : c ∉ ['/', '?', '#', '@', '[', ']']

private theorem HostChar.not_whitespace {c : Char} (h : HostChar c) : isWhitespace c = false := by
  have hgraphic := h.graphic
  simp [isWhitespace]
  omega

private theorem hostChar_of_ranges {c : Char}
    (h : c.toNat ∈ [0x2D, 0x2E, 0x3A, 0x5F] ∨ (0x30 ≤ c.toNat ∧ c.toNat ≤ 0x39) ∨
      (0x41 ≤ c.toNat ∧ c.toNat ≤ 0x5A) ∨ (0x61 ≤ c.toNat ∧ c.toNat ≤ 0x7A)) : HostChar c where
  graphic := by
    simp at h
    omega
  inside := by
    simp only [List.mem_cons, List.not_mem_nil, or_false]
    rintro (rfl | rfl | rfl | rfl | rfl | rfl) <;> revert h <;> decide

private theorem alphanum_ranges {c : Char} (h : c.isAlphanum = true) :
    (0x30 ≤ c.toNat ∧ c.toNat ≤ 0x39) ∨ (0x41 ≤ c.toNat ∧ c.toNat ≤ 0x5A) ∨
      (0x61 ≤ c.toNat ∧ c.toNat ≤ 0x7A) := by
  simp only [Char.isAlphanum, Char.isAlpha, Char.isUpper, Char.isLower, Char.isDigit,
    Bool.or_eq_true, Bool.and_eq_true, decide_eq_true_eq, ge_iff_le, UInt32.le_iff_toNat_le] at h
  simp at h
  omega

private theorem hostChar_of_isIpv6Char {c : Char} (h : isIpv6Char c = true) : HostChar c := by
  simp only [isIpv6Char, Bool.or_eq_true, decide_eq_true_eq] at h
  rcases h with (h | rfl) | rfl
  · by_cases hdigit : c.isDigit = true
    · exact hostChar_of_ranges (.inr (alphanum_ranges (by simp [Char.isAlphanum, hdigit])))
    · by_cases hlower : 'a' ≤ c ∧ c ≤ 'f'
      · have hle : 0x61 ≤ c.toNat ∧ c.toNat ≤ 0x66 := hlower
        exact hostChar_of_ranges (by omega)
      · by_cases hupper : 'A' ≤ c ∧ c ≤ 'F'
        · have hle : 0x41 ≤ c.toNat ∧ c.toNat ≤ 0x46 := hupper
          exact hostChar_of_ranges (by omega)
        · simp [digitValue, hdigit, hlower, hupper] at h
  · exact hostChar_of_ranges (by decide)
  · exact hostChar_of_ranges (by decide)

private theorem hostChar_of_plain {c : Char}
    (h : (c.isAlphanum || decide (c ∈ ['.', '-', '_'])) = true) : HostChar c := by
  rcases Bool.or_eq_true_iff.mp h with h | h
  · exact hostChar_of_ranges (.inr (alphanum_ranges h))
  · have hmem := of_decide_eq_true h
    simp only [List.mem_cons, List.not_mem_nil, or_false] at hmem
    rcases hmem with rfl | rfl | rfl <;> exact hostChar_of_ranges (by decide)

/-- What an accepted host is. -/
theorem validateHost_ok {host : List Char} (h : validateHost host = .ok ()) :
    host ≠ [] ∧ (isIpv6 host = true ∨ ∀ c ∈ host, c.isAlphanum = true ∨ c ∈ ['.', '-', '_']) ∧
      ∀ c ∈ host, HostChar c := by
  unfold validateHost at h
  split at h
  · cases h
  · next hempty =>
    have hnil : host ≠ [] := by simpa using hempty
    split at h
    · split at h
      · next hv6 =>
        exact ⟨hnil, .inl hv6, fun c hc ↦ hostChar_of_isIpv6Char (isIpv6Char_of_isIpv6 hv6 c hc)⟩
      · cases h
    · split at h
      · next hall =>
        have hplain := List.all_eq_true.mp hall
        exact ⟨hnil, .inr fun c hc ↦ by simpa using hplain c hc,
          fun c hc ↦ hostChar_of_plain (hplain c hc)⟩
      · cases h

namespace PeerAddress

/-- The authority of a URL without its scheme. -/
def authorityOf (rest : List Char) : List Char := rest.takeWhile (· ∉ ['/', '?', '#'])

/-- The base path of a URL without its scheme. -/
def basePathOf (rest : List Char) : List Char :=
  (((rest.dropWhile (· ∉ ['/', '?', '#'])).takeWhile (· ∉ ['?', '#'])).reverse.dropWhile
    (· = '/')).reverse

private theorem parse_eq (input : String) : parse input =
    if (trim input.toList).isEmpty then .error (.badPayload "address is empty")
    else (splitScheme (trim input.toList)).bind fun (scheme, rest) ↦
      if '@' ∈ authorityOf rest then
        .error (.badPayload "credentials in address are not supported")
      else if (basePathOf rest).any fun c ↦ isWhitespace c || isControl c then
        .error (.badPayload "invalid address path")
      else (splitAuthority (authorityOf rest)).bind fun (host, explicitPort) ↦
        (validateHost host).bind fun _ ↦ .ok ⟨scheme, String.ofList host,
          explicitPort.getD (match scheme with
          | .http => defaultHttpPort
          | .https => defaultHttpsPort), String.ofList (basePathOf rest)⟩ := by
  unfold parse
  simp only [drop_length_takeWhile]
  rfl

private theorem parse_eq_ok {input : String} {a : PeerAddress} : parse input = .ok a ↔
    ∃ scheme rest host explicitPort,
      trim input.toList ≠ [] ∧ splitScheme (trim input.toList) = .ok (scheme, rest) ∧
        '@' ∉ authorityOf rest ∧
        (∀ c ∈ basePathOf rest, isWhitespace c = false ∧ isControl c = false) ∧
        splitAuthority (authorityOf rest) = .ok (host, explicitPort) ∧ validateHost host = .ok () ∧
        a = ⟨scheme, String.ofList host, explicitPort.getD (match scheme with
          | .http => defaultHttpPort
          | .https => defaultHttpsPort), String.ofList (basePathOf rest)⟩ := by
  rw [parse_eq]
  have hpath : ∀ l : List Char, (l.any fun c ↦ isWhitespace c || isControl c) = false ↔
      ∀ c ∈ l, isWhitespace c = false ∧ isControl c = false := by
    intro l
    simp
  constructor
  · intro h
    split at h
    · cases h
    · next hempty =>
      cases hscheme : splitScheme (trim input.toList) with
      | error e => rw [hscheme] at h; cases h
      | ok pair =>
        obtain ⟨scheme, rest⟩ := pair
        rw [hscheme] at h
        simp only [Except.bind] at h
        split at h
        · cases h
        · next hcred =>
          split at h
          · cases h
          · next hchars =>
            cases hauthority : splitAuthority (authorityOf rest) with
            | error e => rw [hauthority] at h; cases h
            | ok pair =>
              obtain ⟨host, explicitPort⟩ := pair
              rw [hauthority] at h
              simp only at h
              cases hhost : validateHost host with
              | error e => rw [hhost] at h; cases h
              | ok _ =>
                rw [hhost] at h
                exact ⟨scheme, rest, host, explicitPort, by simpa using hempty, rfl, hcred,
                  (hpath _).mp (Bool.eq_false_iff.mpr hchars), hauthority, hhost, (Except.ok.inj h).symm⟩
  · rintro ⟨scheme, rest, host, explicitPort, hempty, hscheme, hcred, hchars, hauthority, hhost, rfl⟩
    rw [if_neg (by simpa using hempty), hscheme]
    simp only [Except.bind]
    rw [if_neg hcred, if_neg (Bool.eq_false_iff.mp ((hpath _).mpr hchars)), hauthority]
    simp only
    rw [hhost]
/-! ## Addresses that were built -/

/-- The parts of an address are as the printers need them. -/
structure Sound (a : PeerAddress) : Prop where
  host : validateHost a.host.toList = .ok ()
  port : 0 < a.port ∧ a.port < 65536
  pathHead : ∀ c, a.basePath.toList.head? = some c → c = '/'
  pathLast : ∀ c, a.basePath.toList.getLast? = some c → c ≠ '/'
  pathChars : ∀ c ∈ a.basePath.toList,
    c ∉ ['?', '#'] ∧ isWhitespace c = false ∧ isControl c = false

private theorem splitAuthority_port {authority host : List Char} {port : Nat}
    (h : splitAuthority authority = .ok (host, some port)) : 0 < port ∧ port < 65536 := by
  have hmap : ∀ {text : List Char} {host' : List Char},
      (parsePort text).map (fun port ↦ (host', some port)) = .ok (host, some port) →
        0 < port ∧ port < 65536 := by
    intro text host' hmap
    cases hport : parsePort text with
    | error e => rw [hport] at hmap; cases hmap
    | ok value =>
      rw [hport] at hmap
      obtain rfl : value = port :=
        Option.some.inj (Prod.mk.inj (Except.ok.inj hmap)).2
      exact parsePort_pos hport
  unfold splitAuthority at h
  split at h
  · split at h
    · cases h
    · split at h
      · cases h
      · exact hmap h
      · cases h
  · split at h
    · cases h
    · split at h
      · exact hmap h
      · cases h

private theorem sound_of_parse {input : String} {a : PeerAddress} (h : parse input = .ok a) :
    a.Sound := by
  obtain ⟨scheme, rest, host, explicitPort, -, -, -, hchars, hauthority, hhost, rfl⟩ :=
    parse_eq_ok.mp h
  have hpath : basePathOf rest = ((rest.dropWhile (· ∉ ['/', '?', '#'])).takeWhile
      (· ∉ ['?', '#'])).rdropWhile (· = '/') := rfl
  have hstart := List.rdropWhile_prefix (fun c ↦ decide (c = '/'))
    ((rest.dropWhile (· ∉ ['/', '?', '#'])).takeWhile (· ∉ ['?', '#']))
  refine ⟨?_, ?_, fun c hc ↦ ?_, fun c hc ↦ ?_, fun c hc ↦ ?_⟩
  · simpa using hhost
  · cases explicitPort with
    | none =>
      cases scheme with
      | http => exact show 0 < defaultHttpPort ∧ defaultHttpPort < 65536 by decide
      | https => exact show 0 < defaultHttpsPort ∧ defaultHttpsPort < 65536 by decide
    | some port => exact splitAuthority_port hauthority
  · rw [String.toList_ofList, hpath] at hc
    have hhead := Base.head?_mono hstart hc
    have hmem := List.mem_takeWhile_imp (p := fun c ↦ decide (c ∉ ['?', '#']))
      (List.mem_of_head? hhead)
    have hdrop := Base.head?_mono (List.takeWhile_prefix _) hhead
    have hstop := List.head?_dropWhile_not (fun c ↦ decide (c ∉ ['/', '?', '#'])) rest
    rw [hdrop] at hstop
    simp at hstop hmem
    tauto
  · rw [String.toList_ofList, hpath] at hc
    have hne : ((rest.dropWhile (· ∉ ['/', '?', '#'])).takeWhile
        (· ∉ ['?', '#'])).rdropWhile (fun c ↦ decide (c = '/')) ≠ [] := by
      intro hnil
      rw [hnil] at hc
      cases hc
    have hlast := List.rdropWhile_last_not _ _ hne
    rw [List.getLast?_eq_some_getLast hne] at hc
    rw [Option.some.inj hc] at hlast
    simpa using hlast
  · rw [String.toList_ofList] at hc
    have hmem : c ∈ (rest.dropWhile (· ∉ ['/', '?', '#'])).takeWhile (· ∉ ['?', '#']) :=
      hstart.subset hc
    have htake := List.mem_takeWhile_imp (p := fun c ↦ decide (c ∉ ['?', '#'])) hmem
    exact ⟨by simpa using htake, hchars c hc⟩

private theorem sound_of_fromHostPort {host : String} {port : Fin 65536} {a : PeerAddress}
    (h : fromHostPort host port = .ok a) : a.Sound := by
  unfold fromHostPort at h
  split at h
  · cases h
  · next hhost =>
    split at h
    · cases h
    · next hport =>
      obtain rfl := Except.ok.inj h
      exact ⟨hhost, ⟨Nat.pos_of_ne_zero hport, port.isLt⟩, by simp, by simp, by simp⟩

/-! ## Writing and reading back -/

/-- The host as it is written. -/
def hostText (host : List Char) : List Char := if ':' ∈ host then '[' :: (host ++ [']']) else host

/-- The port as it is written, if it is. -/
def portText : Option Nat → List Char
  | some port => ':' :: Nat.toDigits 10 port
  | none => []

private theorem digit_hostChar {c : Char} (h : c.isDigit = true) : HostChar c :=
  hostChar_of_ranges (.inr (alphanum_ranges (by simp [Char.isAlphanum, h])))

private theorem mem_portText {port : Option Nat} {c : Char} (h : c ∈ portText port) :
    HostChar c ∧ (c = ':' ∨ c.isDigit = true) := by
  cases port with
  | none => cases h
  | some port =>
    rcases List.mem_cons.mp h with rfl | h
    · exact ⟨hostChar_of_ranges (by decide), .inl rfl⟩
    · have hdigit := Nat.isDigit_of_mem_toDigits (by decide) (by decide) h
      exact ⟨digit_hostChar hdigit, .inr hdigit⟩

/-- The characters of the written authority. -/
theorem mem_authorityText {host : List Char} (hhost : ∀ c ∈ host, HostChar c)
    {port : Option Nat} {c : Char} (h : c ∈ hostText host ++ portText port) :
    HostChar c ∨ c = '[' ∨ c = ']' := by
  rcases List.mem_append.mp h with h | h
  · unfold hostText at h
    split at h
    · simp only [List.mem_cons, List.mem_append, List.not_mem_nil, or_false] at h
      rcases h with rfl | h | rfl
      · exact .inr (.inl rfl)
      · exact .inl (hhost c h)
      · exact .inr (.inr rfl)
    · exact .inl (hhost c h)
  · exact .inl (mem_portText h).1

private theorem splitAuthority_text {host : List Char} (hhost : validateHost host = .ok ())
    {port : Option Nat} (hport : ∀ p, port = some p → 0 < p ∧ p < 65536) :
    splitAuthority (hostText host ++ portText port) = .ok (host, port) := by
  obtain ⟨hnil, -, hchars⟩ := validateHost_ok hhost
  have hnot : ∀ c ∈ ['/', '?', '#', '@', '[', ']'], c ∉ host :=
    fun c hc hmem ↦ (hchars c hmem).inside hc
  unfold hostText
  by_cases hcolon : ':' ∈ host
  · have hsplit := splitOnce_append (hnot ']' (by decide)) (portText port)
      (show [']'].head? = some ']' from rfl)
    rw [if_pos hcolon, List.cons_append]
    simp only [splitAuthority, hsplit]
    cases port with
    | none => rfl
    | some port =>
      obtain ⟨hpos, hlt⟩ := hport port rfl
      show (parsePort (Nat.toDigits 10 port)).map _ = _
      rw [parsePort_toDigits hpos hlt]
      rfl
  · have hfirst : ∀ rest, host ++ portText port ≠ '[' :: rest := by
      intro rest heq
      cases host with
      | nil => exact hnil rfl
      | cons c host =>
        obtain rfl : c = '[' := (List.cons.inj heq).1
        exact hnot '[' (by decide) List.mem_cons_self
    have hcount : (host ++ portText port).count ':' ≤ 1 := by
      rw [List.count_append, List.count_eq_zero_of_not_mem hcolon]
      cases port with
      | none => decide
      | some port =>
        have hdigits : ':' ∉ Nat.toDigits 10 port := fun hmem ↦
          absurd (Nat.isDigit_of_mem_toDigits (by decide) (by decide) hmem) (by decide)
        rw [portText, List.count_cons, List.count_eq_zero_of_not_mem hdigits]
        simp
    rw [if_neg hcolon, splitAuthority.eq_2 _ hfirst, if_neg (Nat.not_lt_of_le hcount)]
    cases port with
    | none =>
      rw [portText, List.append_nil, splitOnce_of_notMem List.mem_cons_self hcolon]
    | some port =>
      obtain ⟨hpos, hlt⟩ := hport port rfl
      have hsplit := splitOnce_append hcolon (Nat.toDigits 10 port)
        (show [':'].head? = some ':' from rfl)
      rw [List.append_assoc] at hsplit
      rw [portText, show ':' :: Nat.toDigits 10 port = [':'] ++ Nat.toDigits 10 port from rfl, hsplit]
      show (parsePort (Nat.toDigits 10 port)).map _ = _
      rw [parsePort_toDigits hpos hlt]
      rfl

private theorem takeWhile_append_stop {p : Char → Bool} {first rest : List Char}
    (hfirst : ∀ c ∈ first, p c = true) (hrest : ∀ c, rest.head? = some c → p c = false) :
    (first ++ rest).takeWhile p = first ∧ (first ++ rest).dropWhile p = rest := by
  have hstop : rest.takeWhile p = [] ∧ rest.dropWhile p = rest := by
    cases rest with
    | nil => exact ⟨rfl, rfl⟩
    | cons c rest => simp [hrest c rfl]
  rw [List.takeWhile_append_of_pos hfirst, List.dropWhile_append_of_pos hfirst, hstop.1, hstop.2,
    List.append_nil]
  exact ⟨rfl, rfl⟩

namespace Sound

variable {a : PeerAddress}

/-- A text that ends with the authority and the base path of an address is read as that address,
where the scheme in front is the one of the address. -/
theorem parse_text (h : a.Sound) {input : String} {scheme : List Char} {port : Option Nat}
    (hinput : input.toList = scheme ++ (hostText a.host.toList ++ portText port ++ a.basePath.toList))
    (hscheme : ∀ c ∈ scheme, isWhitespace c = false)
    (hsplit : splitScheme input.toList =
      .ok (a.scheme, hostText a.host.toList ++ portText port ++ a.basePath.toList))
    (hport : port = some a.port ∨ port = none ∧ a.port = match a.scheme with
      | .http => defaultHttpPort
      | .https => defaultHttpsPort) : parse input = .ok a := by
  obtain ⟨hnil, -, hchars⟩ := validateHost_ok h.host
  have hauthority : ∀ c ∈ hostText a.host.toList ++ portText port,
      c ∉ ['/', '?', '#', '@'] ∧ isWhitespace c = false := by
    intro c hc
    rcases mem_authorityText hchars hc with hc | rfl | rfl
    · refine ⟨fun hmem ↦ hc.inside ?_, hc.not_whitespace⟩
      simp only [List.mem_cons, List.not_mem_nil, or_false] at hmem ⊢
      tauto
    · exact ⟨by decide, by decide⟩
    · exact ⟨by decide, by decide⟩
  have hsplitPath := @takeWhile_append_stop (fun c ↦ decide (c ∉ ['/', '?', '#']))
    (hostText a.host.toList ++ portText port) a.basePath.toList
    (fun c hc ↦ by
      have hout := (hauthority c hc).1
      simp only [List.mem_cons, List.not_mem_nil, or_false, not_or] at hout ⊢
      simp [hout])
    (fun c hc ↦ by rw [h.pathHead c hc]; decide)
  have hpath : a.basePath.toList.takeWhile (fun c ↦ decide (c ∉ ['?', '#'])) = a.basePath.toList := by
    apply List.takeWhile_eq_self_iff.mpr
    intro c hc
    exact decide_eq_true (h.pathChars c hc).1
  have hlast : a.basePath.toList.rdropWhile (fun c ↦ decide (c = '/')) = a.basePath.toList := by
    rw [List.rdropWhile_eq_self_iff]
    intro hne hslash
    exact h.pathLast _ (List.getLast?_eq_some_getLast hne) (of_decide_eq_true hslash)
  have htrim : trim input.toList = input.toList := by
    apply trim_eq_self
    intro c hc
    rw [hinput] at hc
    rcases List.mem_append.mp hc with hc | hc
    · exact hscheme c hc
    · rcases List.mem_append.mp hc with hc | hc
      · exact (hauthority c hc).2
      · exact (h.pathChars c hc).2.1
  have hbase : basePathOf (hostText a.host.toList ++ portText port ++ a.basePath.toList) =
      a.basePath.toList := by
    show (((_ : List Char).dropWhile _).takeWhile _).rdropWhile _ = _
    rw [hsplitPath.2, hpath, hlast]
  apply parse_eq_ok.mpr
  refine ⟨a.scheme, _, a.host.toList, port, ?_, htrim ▸ hsplit, ?_, ?_, ?_, h.host, ?_⟩
  · rw [htrim, hinput]
    intro hempty
    have hhost : hostText a.host.toList ≠ [] := by
      unfold hostText
      split
      · exact List.cons_ne_nil _ _
      · exact hnil
    simp [hhost] at hempty
  · rw [authorityOf, hsplitPath.1]
    exact fun hmem ↦ (hauthority '@' hmem).1 (by decide)
  · rw [hbase]
    exact fun c hc ↦ (h.pathChars c hc).2
  · rw [authorityOf, hsplitPath.1]
    apply splitAuthority_text h.host
    rintro p rfl
    rcases hport with hport | ⟨hport, -⟩
    · obtain rfl := Option.some.inj hport
      exact h.port
    · cases hport
  · rw [hbase, String.ofList_toList, String.ofList_toList]
    rcases hport with rfl | ⟨rfl, hdefault⟩
    · rfl
    · rw [Option.getD_none, ← hdefault]

private theorem toList_bracketed (a : PeerAddress) :
    a.bracketed.toList = hostText a.host.toList := by
  unfold bracketed hostText
  split
  · have htext : s!"[{a.host}]" = "[" ++ a.host ++ "]" := rfl
    rw [htext, String.toList_append, String.toList_append, List.append_assoc]
    rfl
  · rfl

private theorem toList_withPort (a : PeerAddress) :
    s!"{a.bracketed}:{a.port}".toList = hostText a.host.toList ++ portText (some a.port) := by
  have htext : s!"{a.bracketed}:{a.port}" = a.bracketed ++ ":" ++ a.port.repr := rfl
  have hdigits : a.port.repr.toList = Nat.toDigits 10 a.port := by
    rw [Nat.repr, String.toList_ofList]
  rw [htext, String.toList_append, String.toList_append, toList_bracketed, hdigits,
    List.append_assoc]
  rfl

private theorem toList_baseUrl (a : PeerAddress) : a.baseUrl.toList =
    a.scheme.asStr.toList ++ "://".toList ++ (hostText a.host.toList ++
      portText (if a.scheme.omittablePort = some a.port then none else some a.port) ++
      a.basePath.toList) := by
  have htext : a.baseUrl = a.scheme.asStr ++ "://" ++ a.authority ++ a.basePath := rfl
  have hauthority : a.authority.toList = hostText a.host.toList ++
      portText (if a.scheme.omittablePort = some a.port then none else some a.port) := by
    unfold authority
    split
    · rw [toList_bracketed, portText, List.append_nil]
    · exact toList_withPort a
  rw [htext, String.toList_append, String.toList_append, String.toList_append, hauthority,
    List.append_assoc]

private theorem splitScheme_asStr (scheme : Scheme) (rest : List Char) :
    splitScheme (scheme.asStr.toList ++ "://".toList ++ rest) = .ok (scheme, rest) := by
  have hcolon : ':' ∉ scheme.asStr.toList := by cases scheme <;> decide
  unfold splitScheme
  rw [splitOnce_append hcolon rest (show "://".toList.head? = some ':' by decide)]
  cases scheme with
  | http => exact if_pos (by decide)
  | https =>
    show (if _ then _ else if _ then _ else _) = _
    rw [if_neg (by decide), if_pos (by decide)]

/-- The base of the URLs of an address is read as that address. -/
theorem parse_baseUrl (h : a.Sound) : parse a.baseUrl = .ok a := by
  apply h.parse_text (toList_baseUrl a)
  · intro c hc
    cases hscheme : a.scheme with
    | http =>
      rw [hscheme] at hc
      exact Base.forall_mem_of_all (p := fun c ↦ isWhitespace c = false) (by decide) c hc
    | https =>
      rw [hscheme] at hc
      exact Base.forall_mem_of_all (p := fun c ↦ isWhitespace c = false) (by decide) c hc
  · rw [toList_baseUrl, splitScheme_asStr]
  · split
    · next homit =>
      refine .inr ⟨rfl, ?_⟩
      cases hscheme : a.scheme with
      | http => rw [hscheme] at homit; cases homit
      | https =>
        rw [hscheme] at homit
        exact (Option.some.inj homit).symm
    · exact .inl rfl

/-- The stored form of an address is read as that address. -/
theorem parse_toCandidate (h : a.Sound) : parse a.toCandidate = .ok a := by
  unfold toCandidate
  split
  · next hplain =>
    obtain ⟨-, -, hchars⟩ := validateHost_ok h.host
    have htext : s!"{a.bracketed}:{a.port}".toList =
        [] ++ (hostText a.host.toList ++ portText (some a.port) ++ a.basePath.toList) := by
      rw [toList_withPort, hplain.2, List.nil_append]
      simp
    apply h.parse_text htext (by simp)
    · have hslash : '/' ∉ s!"{a.bracketed}:{a.port}".toList := by
        rw [toList_withPort]
        intro hmem
        rcases mem_authorityText hchars hmem with hslash | hslash | hslash
        · exact hslash.inside (by decide)
        · exact absurd hslash (by decide)
        · exact absurd hslash (by decide)
      rw [splitScheme, splitOnce_of_notMem (show '/' ∈ "://".toList by decide) hslash, hplain.1, htext,
        List.nil_append]
    · exact .inl rfl
  · exact h.parse_baseUrl

end Sound

/-- What every address keeps: a host that is a literal of the sixth version without brackets or has
letters, digits, dots, hyphens and underscores only, a port from one on, and a base path that is
empty or begins with a slash and does not end with one. -/
structure WellFormed (a : PeerAddress) : Prop where
  host : isIpv6 a.host.toList = true ∧ '[' ∉ a.host.toList ∧ ']' ∉ a.host.toList ∨
    ∀ c ∈ a.host.toList, c.isAlphanum = true ∨ c ∈ ['.', '-', '_']
  port : 1 ≤ a.port ∧ a.port < 65536
  basePath : a.basePath = "" ∨
    a.basePath.toList.head? = some '/' ∧ a.basePath.toList.getLast? ≠ some '/'

private theorem Sound.wellFormed {a : PeerAddress} (h : a.Sound) : a.WellFormed where
  host := by
    obtain ⟨-, hhost, hchars⟩ := validateHost_ok h.host
    rcases hhost with hv6 | hplain
    · exact .inl ⟨hv6, fun hmem ↦ (hchars _ hmem).inside (by decide),
        fun hmem ↦ (hchars _ hmem).inside (by decide)⟩
    · exact .inr hplain
  port := h.port
  basePath := by
    cases hpath : a.basePath.toList with
    | nil => exact .inl (String.toList_eq_nil_iff.mp hpath)
    | cons c path =>
      have hhead := h.pathHead c (by rw [hpath]; rfl)
      refine .inr ⟨by rw [hhead]; rfl, fun hlast ↦ ?_⟩
      exact h.pathLast '/' (by rw [hpath, hlast]) rfl

/-- An address that was parsed, or built from a host and a port. -/
def Built (a : PeerAddress) : Prop :=
  (∃ input, parse input = .ok a) ∨ ∃ host port, fromHostPort host port = .ok a

private theorem Built.sound {a : PeerAddress} (h : a.Built) : a.Sound := by
  rcases h with ⟨input, hparse⟩ | ⟨host, port, hbuilt⟩
  · exact sound_of_parse hparse
  · exact sound_of_fromHostPort hbuilt

/-- Every address that was parsed or built is read back from both its forms and is well formed; two
of them are equal exactly if their stored forms are, and exactly if the bases of their URLs are. -/
theorem address_round_trip {a b : PeerAddress} (ha : a.Built) (hb : b.Built) :
    parse a.baseUrl = .ok a ∧ parse a.toCandidate = .ok a ∧ a.WellFormed ∧
      (a.toCandidate = b.toCandidate ↔ a = b) ∧ (a.baseUrl = b.baseUrl ↔ a = b) := by
  refine ⟨ha.sound.parse_baseUrl, ha.sound.parse_toCandidate, ha.sound.wellFormed,
    ⟨fun h ↦ ?_, fun h ↦ by rw [h]⟩, ⟨fun h ↦ ?_, fun h ↦ by rw [h]⟩⟩
  · have hread := hb.sound.parse_toCandidate
    rw [← h, ha.sound.parse_toCandidate] at hread
    exact Except.ok.inj hread
  · have hread := hb.sound.parse_baseUrl
    rw [← h, ha.sound.parse_baseUrl] at hread
    exact Except.ok.inj hread

/-- The address of a host with a path. -/
theorem address_round_trip_nas :
    parse (⟨.https, "nas.lan", 443, "/fluxdown"⟩ : PeerAddress).baseUrl =
        .ok ⟨.https, "nas.lan", 443, "/fluxdown"⟩ ∧
      parse (⟨.https, "nas.lan", 443, "/fluxdown"⟩ : PeerAddress).toCandidate =
        .ok ⟨.https, "nas.lan", 443, "/fluxdown"⟩ :=
  have ha : Built ⟨.https, "nas.lan", 443, "/fluxdown"⟩ :=
    .inl ⟨" HTTPS://nas.lan/fluxdown/?x=1", by decide +kernel⟩
  have hb : Built ⟨.http, "::1", 9000, ""⟩ := .inr ⟨"::1", 9000, by decide +kernel⟩
  have h := address_round_trip ha hb
  ⟨h.1, h.2.1⟩

end PeerAddress

end Link
