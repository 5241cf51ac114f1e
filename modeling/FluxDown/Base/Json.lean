import FluxDown.Base.Placeholders

/-!
# Texts in JSON, with holes in their strings

Library `Base`. The grammar of RFC 8259: a text is cut into tokens, symbol by symbol, and is the
text of a value when its tokens are those of the value. Strings are sequences of UTF-16 units, as
escapes name them, and the members of an object are kept in their order. A symbol of the text may be
a hole, which is ordinary content of a string. When every hole is filled with characters that a
string reads as its value, the text is that of the value with its holes filled.
-/

namespace Base.Json

variable {κ : Type}

/-- An element of a string: a unit, or a hole. -/
inductive Elem (κ : Type) where
  | unit (n : Nat)
  | hole (k : κ)
deriving DecidableEq

/-- The UTF-16 units of a character. -/
def utf16 (c : Char) : List Nat :=
  if c.toNat < 0x10000 then [c.toNat]
  else [0xD800 + (c.toNat - 0x10000) / 0x400, 0xDC00 + (c.toNat - 0x10000) % 0x400]

/-- The units of a text. -/
def units (text : List Char) : List Nat := text.flatMap utf16

/-- Tokens. -/
inductive Token (κ : Type) where
  | leftBrace
  | rightBrace
  | leftBracket
  | rightBracket
  | colon
  | comma
  | null
  | bool (b : Bool)
  | number (text : List Char)
  | string (content : List (Elem κ))
deriving DecidableEq

/-! ## Strings -/

/-- Where a string is: between characters, after a backslash, or inside four digits. -/
inductive StringMode where
  | plain
  | escaped
  | hex (left value : Nat)
deriving DecidableEq

/-- A symbol closes the string, or adds elements to it. -/
inductive StringStep (κ : Type) where
  | close
  | go (elems : List (Elem κ)) (mode : StringMode)
deriving DecidableEq

/-- The unit of a short escape. -/
def shortEscape (c : Char) : Option Nat :=
  if c = '"' then some 0x22
  else if c = '\\' then some 0x5C
  else if c = '/' then some 0x2F
  else if c = 'b' then some 0x08
  else if c = 'f' then some 0x0C
  else if c = 'n' then some 0x0A
  else if c = 'r' then some 0x0D
  else if c = 't' then some 0x09
  else none

/-- The value of a digit in base sixteen. -/
def hexVal (c : Char) : Option Nat :=
  if '0' ≤ c ∧ c ≤ '9' then some (c.toNat - 48)
  else if 'a' ≤ c ∧ c ≤ 'f' then some (c.toNat - 87)
  else if 'A' ≤ c ∧ c ≤ 'F' then some (c.toNat - 55)
  else none

/-- After a digit: the unit, or more digits. -/
def stepHex (value : Nat) : Nat → StringStep κ
  | 0 => .go [.unit value] .plain
  | left + 1 => .go [] (.hex left value)

/-- One symbol of a string. A hole is content between characters only. -/
def stepString : StringMode → Glyph Char κ → Option (StringStep κ)
  | .plain, .hole k => some (.go [.hole k] .plain)
  | .plain, .char c =>
    if c = '"' then some .close
    else if c = '\\' then some (.go [] .escaped)
    else if c.toNat < 0x20 then none
    else some (.go ((utf16 c).map .unit) .plain)
  | .escaped, .char c =>
    if c = 'u' then some (.go [] (.hex 3 0))
    else (shortEscape c).map fun n ↦ .go [.unit n] .plain
  | .hex left value, .char c => (hexVal c).map fun d ↦ stepHex (value * 16 + d) left
  | .escaped, .hole _ => none
  | .hex _ _, .hole _ => none

/-! ## Words -/

/-- Digits, at least one, and what follows them. -/
def digits (text : List Char) : Option (List Char) :=
  if (text.takeWhile Char.isDigit).isEmpty then none else some (text.dropWhile Char.isDigit)

/-- The integer part of a number, without a zero before other digits. -/
def integerPart : List Char → Option (List Char)
  | '0' :: text => some text
  | text => digits text

/-- The fraction, when there is one. -/
def fractionPart : List Char → Option (List Char)
  | '.' :: text => digits text
  | text => some text

/-- The exponent, when there is one. -/
def exponentPart : List Char → Option (List Char)
  | c :: text =>
    if c = 'e' ∨ c = 'E' then
      match text with
      | '+' :: text => digits text
      | '-' :: text => digits text
      | text => digits text
    else some (c :: text)
  | [] => some []

/-- The text is a number. -/
def isNumber (text : List Char) : Bool :=
  let text := match text with
    | '-' :: text => text
    | text => text
  ((integerPart text).bind fun text ↦ (fractionPart text).bind exponentPart) = some []

/-- The token of a word. -/
def wordToken (word : List Char) : Option (Token κ) :=
  if word = "true".toList then some (.bool true)
  else if word = "false".toList then some (.bool false)
  else if word = "null".toList then some .null
  else if isNumber word then some (.number word)
  else none

/-! ## Tokens of a text -/

/-- Where a text is: between tokens, in a word, or in a string. -/
inductive LexState (κ : Type) where
  | start
  | word (text : List Char)
  | text (content : List (Elem κ)) (mode : StringMode)
deriving DecidableEq

def isSpace (c : Char) : Bool := c = ' ' || c = '\t' || c = '\n' || c = '\r'

def isWordChar (c : Char) : Bool := c.isAlphanum || c = '+' || c = '-' || c = '.'

/-- The token of a mark. -/
def punctuation (c : Char) : Option (Token κ) :=
  if c = '{' then some .leftBrace
  else if c = '}' then some .rightBrace
  else if c = '[' then some .leftBracket
  else if c = ']' then some .rightBracket
  else if c = ':' then some .colon
  else if c = ',' then some .comma
  else none

/-- A symbol between tokens: the tokens it ends, and where the text is after it. -/
def stepStart : Glyph Char κ → Option (List (Token κ) × LexState κ)
  | .hole _ => none
  | .char c =>
    if isSpace c then some ([], .start)
    else if c = '"' then some ([], .text [] .plain)
    else if isWordChar c then some ([], .word [c])
    else (punctuation c).map fun token ↦ ([token], .start)

/-- A symbol in a word, which it goes on with or ends. -/
def stepWord (word : List Char) : Glyph Char κ → Option (List (Token κ) × LexState κ)
  | .hole _ => none
  | .char c =>
    if isWordChar c then some ([], .word (word ++ [c]))
    else (wordToken word).bind fun token ↦
      (stepStart (.char c)).map fun step ↦ (token :: step.1, step.2)

/-- The state of the text after a symbol in a string. -/
def afterString (content : List (Elem κ)) : StringStep κ → List (Token κ) × LexState κ
  | .close => ([.string content], .start)
  | .go elems mode => ([], .text (content ++ elems) mode)

/-- One symbol of a text. -/
def stepLex : LexState κ → Glyph Char κ → Option (List (Token κ) × LexState κ)
  | .start, s => stepStart s
  | .word word, s => stepWord word s
  | .text content mode, s => (stepString mode s).map (afterString content)

/-- The end of a text. -/
def endLex : LexState κ → Option (List (Token κ))
  | .start => some []
  | .word word => (wordToken word).map fun token ↦ [token]
  | .text _ _ => none

/-- The tokens of a text. -/
def lex : LexState κ → List (Glyph Char κ) → Option (List (Token κ))
  | state, [] => endLex state
  | state, s :: text => (stepLex state s).bind fun step ↦
    (lex step.2 text).map fun rest ↦ step.1 ++ rest

/-! ## Values -/

/-- A value. -/
inductive Value (κ : Type) where
  | null
  | bool (b : Bool)
  | number (text : List Char)
  | string (content : List (Elem κ))
  | array (items : List (Value κ))
  | object (members : List (List (Elem κ) × Value κ))

mutual

/-- The tokens of a value. -/
def Value.tokens : Value κ → List (Token κ)
  | .null => [.null]
  | .bool b => [.bool b]
  | .number text => [.number text]
  | .string content => [.string content]
  | .array items => .leftBracket :: (itemTokens [] items ++ [.rightBracket])
  | .object members => .leftBrace :: (memberTokens [] members ++ [.rightBrace])

/-- The tokens of items, with a separator before the first and commas between them. -/
def itemTokens (separator : List (Token κ)) : List (Value κ) → List (Token κ)
  | [] => []
  | item :: items => separator ++ (item.tokens ++ itemTokens [.comma] items)

/-- The tokens of members, with a separator before the first and commas between them. -/
def memberTokens (separator : List (Token κ)) : List (List (Elem κ) × Value κ) → List (Token κ)
  | [] => []
  | (name, value) :: members =>
    separator ++ (.string name :: .colon :: (value.tokens ++ memberTokens [.comma] members))

end

/-- The text is that of the value. -/
def Parses (text : List (Glyph Char κ)) (value : Value κ) : Prop :=
  lex .start text = some value.tokens

/-! ## A text has one value -/

/-- Induction over values. -/
theorem Value.induct {P : Value κ → Prop} (null : P .null) (bool : ∀ b, P (.bool b))
    (number : ∀ text, P (.number text)) (string : ∀ content, P (.string content))
    (array : ∀ items, (∀ item ∈ items, P item) → P (.array items))
    (object : ∀ members, (∀ member ∈ members, P member.2) → P (.object members)) (v : Value κ) :
    P v := by
  induction hsize : sizeOf v using Nat.strong_induction_on generalizing v with
  | _ n ih =>
    cases v with
    | null => exact null
    | bool b => exact bool b
    | number text => exact number text
    | string content => exact string content
    | array items =>
      apply array
      intro item hitem
      have hlt := List.sizeOf_lt_of_mem hitem
      rw [Value.array.sizeOf_spec] at hsize
      exact ih (sizeOf item) (by omega) item rfl
    | object members =>
      apply object
      rintro ⟨name, value⟩ hmember
      have hlt := List.sizeOf_lt_of_mem hmember
      rw [Prod.mk.sizeOf_spec] at hlt
      rw [Value.object.sizeOf_spec] at hsize
      exact ih (sizeOf value) (by omega) value rfl

/-- The tokens of a value tell it, and where they end. -/
def Value.Unique (v : Value κ) : Prop :=
  ∀ (v' : Value κ) (rest rest' : List (Token κ)),
    v.tokens ++ rest = v'.tokens ++ rest' → v = v' ∧ rest = rest'

private theorem itemTokens_unique {items : List (Value κ)} (h : ∀ item ∈ items, item.Unique)
    {separator : List (Token κ)} (hseparator : separator = [] ∨ separator = [.comma])
    {items' : List (Value κ)} {rest rest' : List (Token κ)}
    (hsame : itemTokens separator items ++ .rightBracket :: rest =
      itemTokens separator items' ++ .rightBracket :: rest') : items = items' ∧ rest = rest' := by
  induction items generalizing separator items' with
  | nil =>
    cases items' with
    | nil => simpa [itemTokens] using hsame
    | cons item' items' =>
      rcases hseparator with rfl | rfl
      · cases item' <;> simp [itemTokens, Value.tokens] at hsame
      · simp [itemTokens] at hsame
  | cons item items ih =>
    cases items' with
    | nil =>
      rcases hseparator with rfl | rfl
      · cases item <;> simp [itemTokens, Value.tokens] at hsame
      · simp [itemTokens] at hsame
    | cons item' items' =>
      rw [List.forall_mem_cons] at h
      simp only [itemTokens, List.append_assoc, List.append_cancel_left_eq] at hsame
      obtain ⟨rfl, htail⟩ := h.1 item' _ _ hsame
      obtain ⟨rfl, hrest⟩ := ih h.2 (.inr rfl) htail
      exact ⟨rfl, hrest⟩

private theorem memberTokens_unique {members : List (List (Elem κ) × Value κ)}
    (h : ∀ member ∈ members, member.2.Unique) {separator : List (Token κ)}
    (hseparator : separator = [] ∨ separator = [.comma])
    {members' : List (List (Elem κ) × Value κ)} {rest rest' : List (Token κ)}
    (hsame : memberTokens separator members ++ .rightBrace :: rest =
      memberTokens separator members' ++ .rightBrace :: rest') :
    members = members' ∧ rest = rest' := by
  induction members generalizing separator members' with
  | nil =>
    cases members' with
    | nil => simpa [memberTokens] using hsame
    | cons member' members' => rcases hseparator with rfl | rfl <;> simp [memberTokens] at hsame
  | cons member members ih =>
    cases members' with
    | nil => rcases hseparator with rfl | rfl <;> simp [memberTokens] at hsame
    | cons member' members' =>
      rw [List.forall_mem_cons] at h
      obtain ⟨name, value⟩ := member
      obtain ⟨name', value'⟩ := member'
      simp only [memberTokens, List.append_assoc, List.append_cancel_left_eq, List.cons_append,
        List.cons.injEq, Token.string.injEq, true_and] at hsame
      obtain ⟨rfl, hsame⟩ := hsame
      obtain ⟨rfl, htail⟩ := h.1 value' _ _ hsame
      obtain ⟨rfl, hrest⟩ := ih h.2 (.inr rfl) htail
      exact ⟨rfl, hrest⟩

/-- A value is the only one with its text. -/
theorem Value.unique (v : Value κ) : v.Unique := by
  induction v using Value.induct with
  | null =>
    intro v' rest rest' h
    cases v' <;> simp_all [Value.tokens]
  | bool b =>
    intro v' rest rest' h
    cases v' <;> simp_all [Value.tokens]
  | number text =>
    intro v' rest rest' h
    cases v' <;> simp_all [Value.tokens]
  | string content =>
    intro v' rest rest' h
    cases v' <;> simp_all [Value.tokens]
  | array items ih =>
    intro v' rest rest' h
    cases v' with
    | array items' =>
      simp only [Value.tokens, List.cons_append, List.append_assoc, List.cons.injEq, true_and,
        List.nil_append] at h
      obtain ⟨rfl, hrest⟩ := itemTokens_unique ih (.inl rfl) h
      exact ⟨rfl, hrest⟩
    | _ => simp [Value.tokens] at h
  | object members ih =>
    intro v' rest rest' h
    cases v' with
    | object members' =>
      simp only [Value.tokens, List.cons_append, List.append_assoc, List.cons.injEq, true_and,
        List.nil_append] at h
      obtain ⟨rfl, hrest⟩ := memberTokens_unique ih (.inl rfl) h
      exact ⟨rfl, hrest⟩
    | _ => simp [Value.tokens] at h

/-- A text is that of at most one value. -/
theorem Parses.unique {text : List (Glyph Char κ)} {v v' : Value κ} (h : Parses text v)
    (h' : Parses text v') : v = v' := by
  have hsame : v.tokens ++ [] = v'.tokens ++ [] := by
    rw [List.append_nil, List.append_nil]
    exact Option.some.inj (h.symm.trans h')
  exact (v.unique v' [] [] hsame).1

/-! ## Filling the holes -/

section Fill

variable (value : κ → List Char)

/-- An element with its hole filled. -/
def Elem.fill : Elem κ → List (Elem κ)
  | .unit n => [.unit n]
  | .hole k => (units (value k)).map .unit

/-- A string with its holes filled. -/
def fillContent (content : List (Elem κ)) : List (Elem κ) := content.flatMap (Elem.fill value)

/-- A token with its holes filled. -/
def Token.fill : Token κ → Token κ
  | .string content => .string (fillContent value content)
  | token => token

mutual

/-- A value with the holes of its strings and names filled. -/
def Value.fill : Value κ → Value κ
  | .null => .null
  | .bool b => .bool b
  | .number text => .number text
  | .string content => .string (fillContent value content)
  | .array items => .array (fillItems items)
  | .object members => .object (fillMembers members)

/-- Items with their holes filled. -/
def fillItems : List (Value κ) → List (Value κ)
  | [] => []
  | item :: items => item.fill :: fillItems items

/-- Members with their holes filled. -/
def fillMembers : List (List (Elem κ) × Value κ) → List (List (Elem κ) × Value κ)
  | [] => []
  | (name, v) :: members => (fillContent value name, v.fill) :: fillMembers members

end

variable {value}

private theorem itemTokens_fill {items : List (Value κ)}
    (h : ∀ item ∈ items, (item.fill value).tokens = item.tokens.map (Token.fill value))
    (separator : List (Token κ)) :
    itemTokens (separator.map (Token.fill value)) (fillItems value items) =
      (itemTokens separator items).map (Token.fill value) := by
  induction items generalizing separator with
  | nil => rfl
  | cons item items ih =>
    rw [List.forall_mem_cons] at h
    have hitems := ih h.2 [.comma]
    rw [fillItems, itemTokens, itemTokens, h.1, List.map_append, List.map_append, ← hitems]
    rfl

private theorem memberTokens_fill {members : List (List (Elem κ) × Value κ)}
    (h : ∀ member ∈ members, (member.2.fill value).tokens = member.2.tokens.map (Token.fill value))
    (separator : List (Token κ)) :
    memberTokens (separator.map (Token.fill value)) (fillMembers value members) =
      (memberTokens separator members).map (Token.fill value) := by
  induction members generalizing separator with
  | nil => rfl
  | cons member members ih =>
    rw [List.forall_mem_cons] at h
    obtain ⟨name, v⟩ := member
    have hmembers := ih h.2 [.comma]
    rw [fillMembers, memberTokens, memberTokens, h.1, List.map_append, List.map_cons, List.map_cons,
      List.map_append, ← hmembers]
    rfl

/-- Filling a value fills its tokens. -/
theorem Value.tokens_fill (v : Value κ) : (v.fill value).tokens = v.tokens.map (Token.fill value) := by
  induction v using Value.induct with
  | null => rfl
  | bool b => rfl
  | number text => rfl
  | string content => rfl
  | array items ih =>
    have hitems := itemTokens_fill ih []
    simp only [List.map_nil] at hitems
    simp only [Value.fill, Value.tokens, hitems, List.map_cons, List.map_append, List.map_nil]
    rfl
  | object members ih =>
    have hmembers := memberTokens_fill ih []
    simp only [List.map_nil] at hmembers
    simp only [Value.fill, Value.tokens, hmembers, List.map_cons, List.map_append, List.map_nil]
    rfl

/-- A state with its holes filled. -/
def LexState.fill (value : κ → List Char) : LexState κ → LexState κ
  | .text content mode => .text (fillContent value content) mode
  | state => state

/-- Read symbols inside a string. -/
def readString : StringMode → List (Glyph Char κ) → Option (List (Elem κ) × StringMode)
  | mode, [] => some ([], mode)
  | mode, s :: text => match stepString mode s with
    | some (.go elems mode) => (readString mode text).map fun rest ↦ (elems ++ rest.1, rest.2)
    | _ => none

/-- A string reads each of the codes as the value it stands for. -/
def Codes (code value : κ → List Char) : Prop :=
  ∀ k, readString .plain ((code k).map (Glyph.char : Char → Glyph Char κ)) =
    some ((units (value k)).map .unit, .plain)

private theorem readString_append {mode mode' mode'' : StringMode}
    {text text' : List (Glyph Char κ)}
    {elems elems' : List (Elem κ)} (h : readString mode text = some (elems, mode'))
    (h' : readString mode' text' = some (elems', mode'')) :
    readString mode (text ++ text') = some (elems ++ elems', mode'') := by
  induction text generalizing mode elems with
  | nil =>
    obtain ⟨rfl, rfl⟩ : [] = elems ∧ mode = mode' := by simpa [readString] using h
    exact h'
  | cons s text ih =>
    rw [readString] at h
    split at h
    · next elems₁ mode₁ hstep =>
      obtain ⟨⟨elems₂, mode₂⟩, hread, heq⟩ := Option.map_eq_some_iff.mp h
      obtain ⟨rfl, rfl⟩ : elems₁ ++ elems₂ = elems ∧ mode₂ = mode' := by simpa using heq
      rw [List.cons_append, readString, hstep]
      dsimp only
      rw [ih hread, Option.map_some, List.append_assoc]
    · cases h

/-- A text is coded character by character. -/
theorem codes_flatMap {escape : Char → List Char} (h : ∀ c, readString .plain
      ((escape c).map (Glyph.char : Char → Glyph Char κ)) = some ((utf16 c).map .unit, .plain))
    (value : κ → List Char) : Codes (fun k ↦ (value k).flatMap escape) value := by
  intro k
  dsimp only
  induction value k with
  | nil => rfl
  | cons c text ih =>
    have hunits : units (c :: text) = utf16 c ++ units text := List.flatMap_cons
    rw [List.flatMap_cons, List.map_append, readString_append (h c) ih, hunits, List.map_append]

/-- What a string reads is added to its content. -/
theorem lex_of_readString {content : List (Elem κ)} {mode mode' : StringMode}
    {text rest : List (Glyph Char κ)} {elems : List (Elem κ)}
    (h : readString mode text = some (elems, mode')) :
    lex (.text content mode) (text ++ rest) = lex (.text (content ++ elems) mode') rest := by
  induction text generalizing content mode elems with
  | nil =>
    obtain ⟨rfl, rfl⟩ : [] = elems ∧ mode = mode' := by simpa [readString] using h
    simp
  | cons s text ih =>
    rw [readString] at h
    split at h
    · next elems₁ mode₁ hstep =>
      obtain ⟨⟨elems₂, mode₂⟩, hread, heq⟩ := Option.map_eq_some_iff.mp h
      obtain ⟨rfl, rfl⟩ : elems₁ ++ elems₂ = elems ∧ mode₂ = mode' := by simpa using heq
      have hlex : stepLex (.text content mode) s = some ([], .text (content ++ elems₁) mode₁) := by
        rw [stepLex, hstep]
        rfl
      rw [List.cons_append, lex, hlex, Option.bind_some, ih hread, List.append_assoc]
      simp
    · cases h

private theorem fillContent_append (content content' : List (Elem κ)) :
    fillContent value (content ++ content') =
      fillContent value content ++ fillContent value content' := List.flatMap_append

private theorem fillContent_units (ns : List Nat) :
    fillContent value (ns.map .unit) = ns.map (.unit : Nat → Elem κ) := by
  induction ns with
  | nil => rfl
  | cons n ns ih =>
    rw [List.map_cons, fillContent, List.flatMap_cons]
    exact congrArg _ ih

/-- The tokens and the state after a symbol, with their holes filled. -/
def fillStep (value : κ → List Char) (step : List (Token κ) × LexState κ) :
    List (Token κ) × LexState κ := (step.1.map (Token.fill value), step.2.fill value)

private theorem wordToken_fill {word : List Char} {token : Token κ}
    (h : wordToken word = some token) :
    token.fill value = token := by
  unfold wordToken at h
  split at h
  · rw [← Option.some.inj h]; rfl
  · split at h
    · rw [← Option.some.inj h]; rfl
    · split at h
      · rw [← Option.some.inj h]; rfl
      · split at h
        · rw [← Option.some.inj h]; rfl
        · cases h

private theorem punctuation_fill {c : Char} {token : Token κ} (h : punctuation c = some token) :
    token.fill value = token := by
  unfold punctuation at h
  repeat' split at h
  all_goals first
    | (rw [← Option.some.inj h]; rfl)
    | cases h

/-- A character between tokens does the same when holes are filled. -/
theorem stepStart_fill {c : Char} {step : List (Token κ) × LexState κ}
    (h : stepStart (.char c) = some step) : fillStep value step = step := by
  simp only [stepStart] at h
  split at h
  · rw [← Option.some.inj h]; rfl
  · split at h
    · rw [← Option.some.inj h]; rfl
    · split at h
      · rw [← Option.some.inj h]; rfl
      · obtain ⟨token, htoken, rfl⟩ := Option.map_eq_some_iff.mp h
        simp only [fillStep, List.map_cons, punctuation_fill htoken]
        rfl

/-- A character adds no holes to a string. -/
theorem fillContent_stepString {c : Char} {mode mode' : StringMode} {elems : List (Elem κ)}
    (h : stepString mode (.char c) = some (.go elems mode')) : fillContent value elems = elems := by
  cases mode with
  | plain =>
    simp only [stepString] at h
    split at h
    · cases h
    · split at h
      · cases h; rfl
      · split at h
        · cases h
        · cases h
          exact fillContent_units _
  | escaped =>
    simp only [stepString] at h
    split at h
    · cases h; rfl
    · obtain ⟨n, -, hgo⟩ := Option.map_eq_some_iff.mp h
      cases hgo; rfl
  | hex left n =>
    obtain ⟨d, -, hgo⟩ := Option.map_eq_some_iff.mp h
    cases left with
    | zero => cases hgo; rfl
    | succ left => cases hgo; rfl

/-- A character does the same to a text whose holes are filled. -/
theorem stepLex_fill {c : Char} {state : LexState κ} {step : List (Token κ) × LexState κ}
    (h : stepLex state (.char c) = some step) :
    stepLex (state.fill value) (.char c) = some (fillStep value step) := by
  cases state with
  | start =>
    have hstart : stepStart (.char c) = some step := h
    rw [stepStart_fill hstart]
    exact hstart
  | word word =>
    have hword : stepWord word (.char c) = some step := h
    have hfill : fillStep value step = step := by
      simp only [stepWord] at hword
      split at hword
      · rw [← Option.some.inj hword]; rfl
      · obtain ⟨token, htoken, hstart⟩ := Option.bind_eq_some_iff.mp hword
        obtain ⟨after, hafter, rfl⟩ := Option.map_eq_some_iff.mp hstart
        have hsame : fillStep value after = after := stepStart_fill hafter
        have htokens : after.1.map (Token.fill value) = after.1 := congrArg Prod.fst hsame
        have hstate : after.2.fill value = after.2 := congrArg Prod.snd hsame
        simp only [fillStep, List.map_cons, wordToken_fill htoken, htokens, hstate]
    rw [hfill]
    exact h
  | text content mode =>
    obtain ⟨next, hnext, rfl⟩ := Option.map_eq_some_iff.mp h
    have hlex : stepLex (LexState.fill value (.text content mode)) (.char c) =
        some (afterString (fillContent value content) next) := by
      rw [LexState.fill, stepLex, hnext]
      rfl
    rw [hlex]
    cases next with
    | close => rfl
    | go elems mode' =>
      simp only [afterString, fillStep, LexState.fill, fillContent_append,
        fillContent_stepString hnext]
      rfl

/-- Filling the holes of a text fills its tokens. -/
theorem lex_fill {code : κ → List Char} (hcodes : Codes code value) {state : LexState κ}
    {text : List (Glyph Char κ)} {tokens : List (Token κ)} (h : lex state text = some tokens) :
    lex (state.fill value) ((text.flatMap (Glyph.fill code)).map .char) =
      some (tokens.map (Token.fill value)) := by
  induction text generalizing state tokens with
  | nil =>
    cases state with
    | start => cases h; rfl
    | word word =>
      obtain ⟨token, htoken, rfl⟩ := Option.map_eq_some_iff.mp h
      rw [List.map_cons, wordToken_fill htoken]
      exact h
    | text content mode => cases h
  | cons s text ih =>
    obtain ⟨⟨first, state'⟩, hstep, hrest⟩ := Option.bind_eq_some_iff.mp h
    obtain ⟨rest, hlex, rfl⟩ := Option.map_eq_some_iff.mp hrest
    rw [List.flatMap_cons, List.map_append, List.map_append]
    cases s with
    | char c =>
      have htail := ih hlex
      simp only [Glyph.fill, List.map_cons, List.map_nil, List.cons_append, List.nil_append]
      rw [lex, stepLex_fill hstep, Option.bind_some]
      dsimp only [fillStep] at htail ⊢
      rw [htail, Option.map_some]
    | hole k =>
      -- A hole stands in a string only, between two characters.
      cases state with
      | start => cases hstep
      | word word => cases hstep
      | text content mode =>
        cases mode with
        | plain =>
          obtain ⟨rfl, rfl⟩ : [] = first ∧ .text (content ++ [.hole k]) .plain = state' := by
            simpa [stepLex, stepString, afterString] using hstep
          have hfilled := ih hlex
          rw [LexState.fill, fillContent_append] at hfilled
          rw [Glyph.fill, LexState.fill, lex_of_readString (hcodes k), List.map_nil, List.nil_append,
            ← hfilled]
          simp [fillContent, Elem.fill]
        | escaped => cases hstep
        | hex left n => cases hstep

/-- A text whose holes are filled with codes is the text of the value with its holes filled. -/
theorem Parses.fill {code : κ → List Char} (hcodes : Codes code value) {text : List (Glyph Char κ)}
    {v : Value κ} (h : Parses text v) :
    Parses ((text.flatMap (Glyph.fill code)).map .char) (v.fill value) := by
  rw [Parses, Value.tokens_fill]
  exact lex_fill hcodes h

end Fill

end Base.Json
