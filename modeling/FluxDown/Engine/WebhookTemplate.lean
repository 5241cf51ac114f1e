import FluxDown.Base.Json
import FluxDown.Engine.Webhook

/-!
# Bodies of deliveries

Library `Engine`. The body of a delivery is a template in which the variables of the event are put
in for their placeholders, escaped as in a JSON string. The scanner works on the bytes of the
template and slices it. Whatever the variables hold, it ends, its slices lie between characters, and
where the template is a JSON text with placeholders in its strings, the body is the JSON text of the
same value with the variables put in.
-/

namespace Engine.Webhook

open Base Base.Json

/-! ## Variables -/

/-- The variables of an event (`src/native/engine/src/webhook.rs:1417–1440`). -/
inductive Variable where
  | event
  | eventTitle
  | eventSummary
  | timestamp
  | instanceApp
  | instanceVersion
  | instanceHost
  | queueId
  | queueName
  | ntfyTopic
  | taskId
  | taskFileName
  | taskUrl
  | taskSaveDir
  | taskTotalBytes
  | taskTotalBytesHuman
  | taskStatus
  | taskErrorMessage
deriving DecidableEq

namespace Variable

/-- In the order they are put into the table. -/
def all : List Variable :=
  [event, eventTitle, eventSummary, timestamp, instanceApp, instanceVersion, instanceHost, queueId,
    queueName, ntfyTopic, taskId, taskFileName, taskUrl, taskSaveDir, taskTotalBytes,
    taskTotalBytesHuman, taskStatus, taskErrorMessage]

/-- The name of a variable, without its braces. -/
def name : Variable → String
  | event => "event"
  | eventTitle => "event.title"
  | eventSummary => "event.summary"
  | timestamp => "timestamp"
  | instanceApp => "instance.app"
  | instanceVersion => "instance.version"
  | instanceHost => "instance.host"
  | queueId => "queue.id"
  | queueName => "queue.name"
  | ntfyTopic => "ntfy.topic"
  | taskId => "task.id"
  | taskFileName => "task.fileName"
  | taskUrl => "task.url"
  | taskSaveDir => "task.saveDir"
  | taskTotalBytes => "task.totalBytes"
  | taskTotalBytesHuman => "task.totalBytesHuman"
  | taskStatus => "task.status"
  | taskErrorMessage => "task.errorMessage"

/-- The placeholder of a variable. -/
def key (v : Variable) : List Char := '\x7b' :: (v.name.toList ++ ['\x7d'])

private theorem braced : Braced '\x7b' '\x7d' all key where
  ne := by decide
  name := by
    intro v _
    refine ⟨v.name.toList, rfl, ?_⟩
    cases v <;> decide

end Variable

/-- The values of the variables (`webhook.rs:641`). -/
abbrev Vars := Variable → List Char

/-- The value for a placeholder, when it is one. -/
def Vars.get (vars : Vars) (key : List UInt8) : Option (List Char) :=
  (Variable.all.find? fun v ↦ utf8Bytes v.key = key).map vars

/-! ## Escapes -/

/-- An escape with four digits, in lower case. -/
def unicodeEscape (n : Nat) : List Char := '\\' :: 'u' :: (Nat.toDigits 16 n).leftpad 4 '0'

/-- A character in a JSON string (`webhook.rs:687–695`). -/
def escapeChar (c : Char) : List Char :=
  if c = '"' then ['\\', '"']
  else if c = '\\' then ['\\', '\\']
  else if c = '\n' then ['\\', 'n']
  else if c = '\r' then ['\\', 'r']
  else if c = '\t' then ['\\', 't']
  else if c.toNat < 0x20 then unicodeEscape c.toNat
  else [c]

/-- `webhook.rs:684–698`. -/
def jsonEscape (raw : List Char) : List Char := raw.flatMap escapeChar

/-! ## The scanner -/

/-- The opening brace as a byte. -/
def openingByte : UInt8 := UInt8.ofNat '\x7b'.toNat

/-- The closing brace as a byte. -/
def closingByte : UInt8 := UInt8.ofNat '\x7d'.toNat

/-- The loop of the scanner, on the bytes that are left (`webhook.rs:705–737`). There is nothing
when a slice does not lie between characters, where the source panics, or when the steps do not
suffice. -/
def renderLoop (vars : Vars) : Nat → List UInt8 → Option (List UInt8)
  | 0, _ => none
  | _ + 1, [] => some []
  | fuel + 1, b :: bytes =>
    if b ≠ openingByte then
      let run := (b :: bytes).takeWhile (· ≠ openingByte)
      let rest := (b :: bytes).dropWhile (· ≠ openingByte)
      if startsChar (b :: bytes) && startsChar rest then
        (renderLoop vars fuel rest).map (run ++ ·)
      else none
    else
      let inner := bytes.takeWhile fun b ↦ b ≠ closingByte && b ≠ openingByte
      match bytes.dropWhile fun b ↦ b ≠ closingByte && b ≠ openingByte with
      | [] => (renderLoop vars fuel bytes).map (openingByte :: ·)
      | last :: rest =>
        if last = openingByte then (renderLoop vars fuel bytes).map (openingByte :: ·)
        else if startsChar (b :: bytes) && startsChar rest then
          let key := openingByte :: (inner ++ [last])
          let out := match vars.get key with
            | some value => utf8Bytes (jsonEscape value)
            | none => key
          (renderLoop vars fuel rest).map (out ++ ·)
        else none

/-- A template with the variables put in (`webhook.rs:705–737`). -/
def renderTemplate (template : List Char) (vars : Vars) : Option (List Char) :=
  (renderLoop vars ((utf8Bytes template).length + 1) (utf8Bytes template)).bind fromUtf8

/-- The template of a service (`webhook.rs:510–541`). -/
def Preset.defaultTemplate : Preset → String
  | ntfy => "\x7b\"topic\":\"\x7bntfy.topic\x7d\",\"title\":\"\x7bevent.title\x7d\"," ++
      "\"message\":\"\x7bevent.summary\x7d\",\"tags\":[\"fluxdown\"]\x7d"
  | gotify =>
    "\x7b\"title\":\"\x7bevent.title\x7d\",\"message\":\"\x7bevent.summary\x7d\",\"priority\":5\x7d"
  | bark =>
    "\x7b\"title\":\"\x7bevent.title\x7d\",\"body\":\"\x7bevent.summary\x7d\",\"group\":\"FluxDown\"\x7d"
  | serverChan => "\x7b\"title\":\"\x7bevent.title\x7d\",\"desp\":\"\x7bevent.summary\x7d\"\x7d"
  | wecom => "\x7b\"msgtype\":\"markdown\",\"markdown\":\x7b\"content\":" ++
      "\"**\x7bevent.title\x7d**\\n\x7bevent.summary\x7d\"\x7d\x7d"
  | feishu => "\x7b\"msg_type\":\"text\",\"content\":\x7b\"text\":" ++
      "\"\x7bevent.title\x7d\\n\x7bevent.summary\x7d\"\x7d\x7d"
  | dingtalk =>
    "\x7b\"msgtype\":\"markdown\",\"markdown\":\x7b\"title\":\"FluxDown · \x7bevent.title\x7d\"," ++
      "\"text\":\"**FluxDown · \x7bevent.title\x7d**\\n\\n\x7bevent.summary\x7d\"\x7d\x7d"
  | telegram => "\x7b\"text\":\"\x7bevent.title\x7d\\n\x7bevent.summary\x7d\"\x7d"
  | discord => "\x7b\"content\":\"**\x7bevent.title\x7d**\\n\x7bevent.summary\x7d\"\x7d"
  | slack => "\x7b\"text\":\"*\x7bevent.title\x7d*\\n\x7bevent.summary\x7d\"\x7d"
  | custom => ""

/-! ## Symbols of a template -/

/-- The template as text and placeholders. -/
def symbols (template : List Char) : List (Glyph Char Variable) :=
  holes Variable.all Variable.key template

/-- The template with the escaped variables put in for its placeholders. -/
def filled (vars : Vars) (template : List Char) : List Char :=
  (symbols template).flatMap (Glyph.fill fun v ↦ jsonEscape (vars v))

/-- Characters that do not open a placeholder. -/
def notOpening (c : Char) : Bool := c ≠ '\x7b'

/-- Characters that are no brace. -/
def notBrace (c : Char) : Bool := c ≠ '\x7d' && c ≠ '\x7b'

private theorem asciiTest_notOpening :
    AsciiTest (· ≠ openingByte) notOpening := AsciiTest.ne (by decide)

private theorem asciiTest_notBrace :
    AsciiTest (fun b ↦ b ≠ closingByte && b ≠ openingByte) notBrace :=
  (AsciiTest.ne (by decide)).and (AsciiTest.ne (by decide))

/-! ## The scanner fills the placeholders -/

section Scanner

variable (vars : Vars) {inner after : List Char}

private theorem flatMap_char (value : Variable → List Char) (text : List Char) :
    (text.map (Glyph.char : Char → Glyph Char Variable)).flatMap (Glyph.fill value) = text := by
  induction text with
  | nil => rfl
  | cons c text ih =>
    rw [List.map_cons, List.flatMap_cons, ih]
    rfl

private theorem filled_append (hinner : '\x7b' ∉ inner) (rest : List Char) :
    filled vars (inner ++ rest) = inner ++ filled vars rest := by
  rw [filled, symbols, holes_append Variable.braced hinner, List.flatMap_append, flatMap_char]
  rfl

private theorem filled_unclosed (hinner : '\x7b' ∉ inner ∧ '\x7d' ∉ inner)
    (hafter : ∀ c ∈ after.head?, c = '\x7b') :
    filled vars ('\x7b' :: (inner ++ after)) = '\x7b' :: filled vars (inner ++ after) := by
  rw [filled, symbols, holes_unclosed Variable.braced hinner hafter, List.flatMap_cons]
  rfl

/-- The variable whose placeholder the segment is. -/
theorem get_segment (inner : List Char) :
    vars.get (utf8Bytes ('\x7b' :: (inner ++ ['\x7d']))) =
      (Variable.all.find? fun v ↦ v.key = '\x7b' :: (inner ++ ['\x7d'])).map vars := by
  simp only [Vars.get, utf8Bytes_injective.eq_iff]

private theorem filled_segment (hinner : '\x7b' ∉ inner ∧ '\x7d' ∉ inner) (rest : List Char) :
    filled vars ('\x7b' :: (inner ++ '\x7d' :: rest)) =
      (vars.get (utf8Bytes ('\x7b' :: (inner ++ ['\x7d'])))).elim
        ('\x7b' :: (inner ++ ['\x7d'])) jsonEscape ++ filled vars rest := by
  rw [filled, symbols, holes_segment Variable.braced hinner, List.flatMap_append, get_segment]
  cases Variable.all.find? fun v ↦ v.key = '\x7b' :: (inner ++ ['\x7d']) with
  | none =>
    rw [Option.elim_none, flatMap_char]
    rfl
  | some v =>
    simp only [Option.elim_some, Option.map_some, List.flatMap_cons, List.flatMap_nil,
      List.append_nil]
    rfl

private theorem length_utf8Bytes_cons (c : Char) (text : List Char) :
    (utf8Bytes (c :: text)).length = c.utf8Size + (utf8Bytes text).length := by
  simp [utf8Bytes]

private theorem length_utf8Bytes_dropWhile_le (q : Char → Bool) (text : List Char) :
    (utf8Bytes (text.dropWhile q)).length ≤ (utf8Bytes text).length := by
  have hsplit : text.takeWhile q ++ text.dropWhile q = text := List.takeWhile_append_dropWhile
  have hlength := congrArg (fun text ↦ (utf8Bytes text).length) hsplit
  simp only [utf8Bytes_append, List.length_append] at hlength
  omega

private theorem notOpening_iff {c : Char} : notOpening c = true ↔ c ≠ '\x7b' := decide_eq_true_iff

private theorem notBrace_iff {c : Char} :
    notBrace c = true ↔ c ≠ '\x7d' ∧ c ≠ '\x7b' := by simp [notBrace]

/-- A segment ends at its closing brace, or is not closed. -/
theorem dropWhile_notBrace_cases (text : List Char) :
    (∀ c ∈ (text.dropWhile notBrace).head?, c = '\x7b') ∨
      ∃ rest, text.dropWhile notBrace = '\x7d' :: rest := by
  induction text with
  | nil => simp
  | cons c text ih =>
    by_cases hc : notBrace c = true
    · rwa [List.dropWhile_cons_of_pos hc]
    · rw [List.dropWhile_cons_of_neg hc]
      rw [notBrace_iff, not_and_or, not_not, not_not] at hc
      rcases hc with rfl | rfl
      · exact .inr ⟨text, rfl⟩
      · exact .inl (by simp)

private theorem utf8Bytes_opening (text : List Char) :
    utf8Bytes ('\x7b' :: text) = openingByte :: utf8Bytes text := rfl

/-- Text before the next opening brace is copied. -/
theorem renderLoop_text {fuel : Nat} {c : Char} (hc : c ≠ '\x7b') (text : List Char) :
    renderLoop vars (fuel + 1) (utf8Bytes (c :: text)) =
      (renderLoop vars fuel (utf8Bytes ((c :: text).dropWhile notOpening))).map
        (utf8Bytes ((c :: text).takeWhile notOpening) ++ ·) := by
  have hall := asciiTest_notOpening.all_bytes (notOpening_iff.mpr hc)
  have hstarts := startsChar_utf8Bytes (c :: text)
  have hrest := startsChar_utf8Bytes ((c :: text).dropWhile notOpening)
  obtain ⟨b, more, hchar⟩ := List.exists_cons_of_ne_nil (@String.utf8EncodeChar_ne_nil c)
  have hbytes : utf8Bytes (c :: text) = b :: (more ++ utf8Bytes text) := by
    rw [utf8Bytes, List.flatMap_cons, hchar]
    rfl
  have hb : b ≠ openingByte := by simpa using hall b (by simp [hchar])
  rw [← takeWhile_utf8Bytes asciiTest_notOpening]
  rw [← dropWhile_utf8Bytes asciiTest_notOpening] at hrest ⊢
  rw [hbytes] at hstarts hrest ⊢
  rw [renderLoop, if_pos hb]
  dsimp only
  rw [hstarts, hrest]
  rfl

/-- An opening brace that is not closed before the next one is copied. -/
theorem renderLoop_unclosed {fuel : Nat} {text : List Char}
    (h : ∀ c ∈ (text.dropWhile notBrace).head?, c = '\x7b') :
    renderLoop vars (fuel + 1) (utf8Bytes ('\x7b' :: text)) =
      (renderLoop vars fuel (utf8Bytes text)).map (openingByte :: ·) := by
  rw [utf8Bytes_opening, renderLoop, if_neg (not_not_intro rfl), dropWhile_utf8Bytes asciiTest_notBrace]
  cases hafter : text.dropWhile notBrace with
  | nil => rfl
  | cons c rest =>
    rw [hafter] at h
    obtain rfl := h c rfl
    rfl

/-- A closed segment is looked up. -/
theorem renderLoop_segment {fuel : Nat} {text rest : List Char}
    (h : text.dropWhile notBrace = '\x7d' :: rest) :
    renderLoop vars (fuel + 1) (utf8Bytes ('\x7b' :: text)) =
      (renderLoop vars fuel (utf8Bytes rest)).map (utf8Bytes
        ((vars.get (utf8Bytes ('\x7b' :: (text.takeWhile notBrace ++ ['\x7d'])))).elim
          ('\x7b' :: (text.takeWhile notBrace ++ ['\x7d'])) jsonEscape) ++ ·) := by
  have hkey : utf8Bytes ('\x7b' :: (text.takeWhile notBrace ++ ['\x7d'])) =
      openingByte :: ((utf8Bytes text).takeWhile (fun b ↦ b ≠ closingByte && b ≠ openingByte) ++
        [closingByte]) := by
    rw [utf8Bytes_opening, utf8Bytes_append, takeWhile_utf8Bytes asciiTest_notBrace]
    rfl
  have hafter : (utf8Bytes text).dropWhile (fun b ↦ b ≠ closingByte && b ≠ openingByte) =
      closingByte :: utf8Bytes rest := by
    rw [dropWhile_utf8Bytes asciiTest_notBrace, h]
    rfl
  have hstarts := startsChar_utf8Bytes ('\x7b' :: text)
  rw [utf8Bytes_opening] at hstarts ⊢
  rw [renderLoop, if_neg (not_not_intro rfl), hafter]
  dsimp only
  rw [if_neg (by decide), hstarts, startsChar_utf8Bytes, Bool.and_self, if_pos rfl, ← hkey]
  cases vars.get (utf8Bytes ('\x7b' :: (text.takeWhile notBrace ++ ['\x7d']))) with
  | none => rfl
  | some value => rfl

/-- The scanner reaches its end, slices between characters, and fills the placeholders. -/
theorem renderLoop_utf8Bytes (fuel : Nat) (text : List Char) (h : (utf8Bytes text).length < fuel) :
    renderLoop vars fuel (utf8Bytes text) = some (utf8Bytes (filled vars text)) := by
  induction fuel generalizing text with
  | zero => omega
  | succ fuel ih =>
    cases text with
    | nil => rfl
    | cons c text =>
      have hsmaller := length_utf8Bytes_cons c text
      have hpos := c.utf8Size_pos
      by_cases hc : c = '\x7b'
      · subst hc
        have hsplit : text.takeWhile notBrace ++ text.dropWhile notBrace = text :=
          List.takeWhile_append_dropWhile
        have hinner : '\x7b' ∉ text.takeWhile notBrace ∧ '\x7d' ∉ text.takeWhile notBrace :=
          ⟨fun hmem ↦ (notBrace_iff.mp (List.mem_takeWhile_imp hmem)).2 rfl,
            fun hmem ↦ (notBrace_iff.mp (List.mem_takeWhile_imp hmem)).1 rfl⟩
        rcases dropWhile_notBrace_cases text with hafter | ⟨rest, hrest⟩
        · have hfilled := filled_unclosed vars hinner hafter
          rw [hsplit] at hfilled
          rw [renderLoop_unclosed vars hafter, ih text (by omega), hfilled]
          rfl
        · have hfilled := filled_segment vars hinner rest
          rw [← hrest, hsplit] at hfilled
          have hle := length_utf8Bytes_dropWhile_le notBrace text
          rw [hrest, length_utf8Bytes_cons] at hle
          rw [renderLoop_segment vars hrest, ih rest (by omega), hfilled, utf8Bytes_append]
          rfl
      · have hdrop : (c :: text).dropWhile notOpening = text.dropWhile notOpening := by
          rw [List.dropWhile_cons_of_pos (notOpening_iff.mpr hc)]
        have hle := length_utf8Bytes_dropWhile_le notOpening text
        rw [renderLoop_text vars hc, ih _ (by rw [hdrop]; omega), Option.map_some,
          ← utf8Bytes_append, ← filled_append, List.takeWhile_append_dropWhile]
        exact fun hmem ↦ notOpening_iff.mp (List.mem_takeWhile_imp hmem) rfl

end Scanner

/-! ## Values in JSON strings -/

private theorem readString_unicodeEscape : ∀ n < 0x20, readString .plain
    ((unicodeEscape n).map (Glyph.char : Char → Glyph Char Variable)) =
      some ([.unit n], .plain) := by
  decide

/-- A string reads an escaped character as the character. -/
theorem readString_escapeChar (c : Char) : readString .plain
    ((escapeChar c).map (Glyph.char : Char → Glyph Char Variable)) =
      some ((utf16 c).map .unit, .plain) := by
  unfold escapeChar
  split
  · next h => subst h; rfl
  · next hquote =>
    split
    · next h => subst h; rfl
    · next hbackslash =>
      split
      · next h => subst h; rfl
      · split
        · next h => subst h; rfl
        · split
          · next h => subst h; rfl
          · split
            · next hcontrol =>
              have hunit : utf16 c = [c.toNat] := if_pos (by omega)
              rw [readString_unicodeEscape c.toNat hcontrol, hunit]
              rfl
            · next hplain =>
              simp [readString, stepString, hquote, hbackslash, hplain]

private theorem codes_jsonEscape (vars : Vars) : Codes (fun v ↦ jsonEscape (vars v)) vars :=
  codes_flatMap readString_escapeChar vars

/-! ## Templates of the services -/

/-- A text without placeholders. -/
def content (text : String) : List (Elem Variable) := (units text.toList).map .unit

/-- What each service is sent. -/
def Preset.payload : Preset → Option (Value Variable)
  | ntfy => some (.object [(content "topic", .string [.hole .ntfyTopic]),
      (content "title", .string [.hole .eventTitle]),
      (content "message", .string [.hole .eventSummary]),
      (content "tags", .array [.string (content "fluxdown")])])
  | gotify => some (.object [(content "title", .string [.hole .eventTitle]),
      (content "message", .string [.hole .eventSummary]),
      (content "priority", .number "5".toList)])
  | bark => some (.object [(content "title", .string [.hole .eventTitle]),
      (content "body", .string [.hole .eventSummary]),
      (content "group", .string (content "FluxDown"))])
  | serverChan => some (.object [(content "title", .string [.hole .eventTitle]),
      (content "desp", .string [.hole .eventSummary])])
  | wecom => some (.object [(content "msgtype", .string (content "markdown")),
      (content "markdown", .object [(content "content", .string
        (content "**" ++ .hole .eventTitle :: (content "**\n" ++ [.hole .eventSummary])))])])
  | feishu => some (.object [(content "msg_type", .string (content "text")),
      (content "content", .object [(content "text", .string
        (.hole .eventTitle :: (content "\n" ++ [.hole .eventSummary])))])])
  | dingtalk => some (.object [(content "msgtype", .string (content "markdown")),
      (content "markdown", .object [
        (content "title", .string (content "FluxDown · " ++ [.hole .eventTitle])),
        (content "text", .string (content "**FluxDown · " ++
          .hole .eventTitle :: (content "**\n\n" ++ [.hole .eventSummary])))])])
  | telegram => some (.object [(content "text", .string
      (.hole .eventTitle :: (content "\n" ++ [.hole .eventSummary])))])
  | discord => some (.object [(content "content", .string
      (content "**" ++ .hole .eventTitle :: (content "**\n" ++ [.hole .eventSummary])))])
  | slack => some (.object [(content "text", .string
      (content "*" ++ .hole .eventTitle :: (content "*\n" ++ [.hole .eventSummary])))])
  | custom => none

/-- The template of a service is the JSON text of what it is sent. -/
theorem parses_defaultTemplate {preset : Preset} {v : Value Variable} (h : preset.payload = some v) :
    Parses (symbols preset.defaultTemplate.toList) v := by
  cases preset with
  | custom => cases h
  | _ =>
    rw [← Option.some.inj h, Parses]
    decide +kernel

/-! ## The body is what the template says -/

/-- The scanner ends on every template, slices it between characters, and puts the escaped values in
for the placeholders: a template is its text and its placeholders, which are found in one pass, so
braces of a value are never read. Where the template is the JSON text of a value with placeholders
in its strings, the body is the JSON text of that value with the variables put in, and of no other.
The templates of the services are such texts. -/
theorem renderTemplate_fills (vars : Vars) (template : List Char) :
    (symbols template).flatMap (Glyph.fill Variable.key) = template ∧
      renderTemplate template vars = some (filled vars template) ∧
      (∀ v, Parses (symbols template) v → ∀ v', Parses ((filled vars template).map .char) v' ↔
        v' = v.fill vars) ∧
      ∀ preset ≠ Preset.custom, ∃ v, preset.payload = some v ∧
        Parses (symbols preset.defaultTemplate.toList) v := by
  refine ⟨flatMap_holes Variable.braced template, ?_, ?_, ?_⟩
  · rw [renderTemplate, renderLoop_utf8Bytes vars _ _ (Nat.lt_succ_self _), Option.bind_some,
      fromUtf8_utf8Bytes]
  · intro v hv v'
    have hfill : Parses ((filled vars template).map .char) (v.fill vars) :=
      hv.fill (codes_jsonEscape vars)
    constructor
    · exact fun hv' ↦ hv'.unique hfill
    · rintro rfl
      exact hfill
  · intro preset hpreset
    cases preset with
    | custom => exact absurd rfl hpreset
    | _ => exact ⟨_, rfl, parses_defaultTemplate rfl⟩

end Engine.Webhook
