import FluxDown.Base.Framing
import FluxDown.Link.Crypto

/-!
# Messages under the secret of a link

Library `Link`. Four formats are authenticated with keys of one secret: the message of a request's
tag, the associated data of a request and of its response, and the message of a control
credential. Each joins a label and its fields with line breaks, so fields without line breaks can
be read back, and the labels keep the formats apart. The response names the parties of its request
in the other order.
-/

namespace Link

open Base

/-- Associated data of a response (`src/native/link/src/crypto.rs:206–216`). -/
def responseAad (exchange : LinkExchange) : List UInt8 :=
  utf8 s!"fluxlink-v2-resp\n{exchange.method}\n{exchange.path}\n{exchange.receiverFp}\n{exchange.senderFp}\n{exchange.nonce}"

/-- What the tag of a request is computed of (`crypto.rs:320–330`). -/
def linkAuthMessage (c : Primitives) (exchange : LinkExchange) (ts : Int) (body : List UInt8) :
    List UInt8 :=
  utf8 s!"fluxlink-v2\n{exchange.method}\n{exchange.path}\n{ts}\n{exchange.nonce}\n{exchange.senderFp}\n{exchange.receiverFp}\n{hexEncode (c.sha256 body).toList}"

/-- What a control credential is computed of (`crypto.rs:364–379`). -/
def controlCredentialMessage (initiatorFp responderFp : String) : List UInt8 :=
  utf8 s!"fluxdown-rpc-control-v1\n{initiatorFp}\n{responderFp}"

/-! ## Fields on one line -/

/-- A text without line breaks. -/
def OneLine (text : String) : Prop := '\n' ∉ text.toList

instance (text : String) : Decidable (OneLine text) :=
  inferInstanceAs (Decidable ('\n' ∉ text.toList))

/-- No field of the exchange has a line break. -/
structure LinkExchange.Plain (exchange : LinkExchange) : Prop where
  method : OneLine exchange.method
  path : OneLine exchange.path
  nonce : OneLine exchange.nonce
  senderFp : OneLine exchange.senderFp
  receiverFp : OneLine exchange.receiverFp

private theorem oneLine_digits (n : Nat) : OneLine n.repr := by
  intro hmem
  rw [Nat.repr, String.toList_ofList] at hmem
  have hdigit := Nat.isDigit_of_mem_toDigits (by decide) (by decide) hmem
  exact absurd hdigit (by decide)

private theorem oneLine_repr (ts : Int) : OneLine ts.repr := by
  rw [Int.repr_eq_if]
  split
  · exact oneLine_digits _
  · have hdigits := oneLine_digits (-ts).toNat
    simpa [OneLine] using hdigits

private theorem digitChar_ne_newline : ∀ n < 16, Nat.digitChar n ≠ '\n' := by decide

private theorem digitChar_injective :
    ∀ m < 16, ∀ n < 16, Nat.digitChar m = Nat.digitChar n → m = n := by decide

private theorem oneLine_hexEncode (bytes : List UInt8) : OneLine (hexEncode bytes) := by
  intro hmem
  rw [hexEncode, String.toList_ofList, List.mem_flatMap] at hmem
  obtain ⟨byte, _, hdigit⟩ := hmem
  have hbyte := byte.toNat_lt
  rw [List.mem_cons, List.mem_singleton] at hdigit
  cases hdigit with
  | inl hhigh => exact digitChar_ne_newline _ (by omega) hhigh.symm
  | inr hlow => exact digitChar_ne_newline _ (by omega) hlow.symm

/-- Two digits tell a byte. -/
theorem readable_hexDigits : Readable (fun _ : UInt8 ↦ True) fun byte ↦
    [Nat.digitChar (byte.toNat / 16), Nat.digitChar (byte.toNat % 16)] := by
  apply Readable.of_length (n := 2)
  · intro byte _
    rfl
  · intro byte byte' _ _ hsame
    have hbyte := byte.toNat_lt
    have hbyte' := byte'.toNat_lt
    rw [List.cons.injEq, List.cons.injEq] at hsame
    have hhigh := digitChar_injective _ (by omega) _ (by omega) hsame.1
    have hlow := digitChar_injective _ (by omega) _ (by omega) hsame.2.1
    apply UInt8.toNat_inj.mp
    omega

/-- The digits of as many bytes tell them. -/
theorem hexEncode_injective {bytes bytes' : List UInt8} (hlength : bytes.length = bytes'.length)
    (hsame : hexEncode bytes = hexEncode bytes') : bytes = bytes' :=
  readable_hexDigits.flatMap_injective (fun _ _ ↦ trivial) (fun _ _ ↦ trivial) hlength
    (String.ofList_injective hsame)

/-- A fingerprint is on one line. -/
theorem oneLine_fingerprint (c : Primitives) (publicKey : List UInt8) :
    OneLine (fingerprint c publicKey) := oneLine_hexEncode _

/-! ## Formats -/

/-- The lines of a format tell themselves by their join. -/
theorem lines_injective {l l' : List String} (hl : ∀ line ∈ l, OneLine line)
    (hl' : ∀ line ∈ l', OneLine line) (hne : l ≠ []) (hne' : l' ≠ [])
    (hsame : utf8 ("\n".intercalate l) = utf8 ("\n".intercalate l')) : l = l' := by
  have htext := congrArg String.toList (utf8_injective hsame)
  rw [String.toList_intercalate, String.toList_intercalate] at htext
  have htexts {lines : List String} (h : ∀ line ∈ lines, OneLine line) :
      ∀ text ∈ lines.map String.toList, '\n' ∉ text := by
    simpa [OneLine] using h
  have hlists := intercalate_injective (htexts hl) (htexts hl') (by simpa using hne)
    (by simpa using hne') htext
  exact List.map_injective_iff.mpr (fun _ _ ↦ String.toList_injective) hlists

/-- Formats with different labels are kept apart. -/
theorem lines_ne {l l' : List String} (hl : ∀ line ∈ l, OneLine line)
    (hl' : ∀ line ∈ l', OneLine line) (hne : l ≠ []) (hne' : l' ≠ []) (hlabel : l.head? ≠ l'.head?) :
    utf8 ("\n".intercalate l) ≠ utf8 ("\n".intercalate l') := by
  intro hsame
  exact hlabel (congrArg List.head? (lines_injective hl hl' hne hne' hsame))

namespace LinkExchange

/-- Lines of a request's associated data. -/
private def requestLines (exchange : LinkExchange) : List String :=
  ["fluxlink-v2-req", exchange.method, exchange.path, exchange.senderFp, exchange.receiverFp,
    exchange.nonce]

/-- Lines of a response's associated data. -/
private def responseLines (exchange : LinkExchange) : List String :=
  ["fluxlink-v2-resp", exchange.method, exchange.path, exchange.receiverFp, exchange.senderFp,
    exchange.nonce]

/-- Lines of a tag's message. -/
private def tagLines (c : Primitives) (exchange : LinkExchange) (ts : Int) (body : List UInt8) :
    List String :=
  ["fluxlink-v2", exchange.method, exchange.path, ts.repr, exchange.nonce, exchange.senderFp,
    exchange.receiverFp, hexEncode (c.sha256 body).toList]

private theorem requestAad_lines (exchange : LinkExchange) :
    requestAad exchange = utf8 ("\n".intercalate exchange.requestLines) := by
  apply congrArg utf8
  simp [requestLines, toString, ← String.append_assoc]

private theorem responseAad_lines (exchange : LinkExchange) :
    responseAad exchange = utf8 ("\n".intercalate exchange.responseLines) := by
  apply congrArg utf8
  simp [responseLines, toString, ← String.append_assoc]

private theorem linkAuthMessage_lines (c : Primitives) (exchange : LinkExchange) (ts : Int)
    (body : List UInt8) : linkAuthMessage c exchange ts body =
      utf8 ("\n".intercalate (exchange.tagLines c ts body)) := by
  apply congrArg utf8
  simp [tagLines, toString, ← String.append_assoc]

variable {exchange exchange' : LinkExchange}

private theorem Plain.requestLines (h : exchange.Plain) :
    ∀ line ∈ exchange.requestLines, OneLine line := by
  simp only [LinkExchange.requestLines, List.forall_mem_cons]
  exact ⟨by decide, h.method, h.path, h.senderFp, h.receiverFp, h.nonce, by simp⟩

private theorem Plain.responseLines (h : exchange.Plain) :
    ∀ line ∈ exchange.responseLines, OneLine line := by
  simp only [LinkExchange.responseLines, List.forall_mem_cons]
  exact ⟨by decide, h.method, h.path, h.receiverFp, h.senderFp, h.nonce, by simp⟩

private theorem Plain.tagLines (h : exchange.Plain) (c : Primitives) (ts : Int)
    (body : List UInt8) : ∀ line ∈ exchange.tagLines c ts body, OneLine line := by
  simp only [LinkExchange.tagLines, List.forall_mem_cons]
  exact ⟨by decide, h.method, h.path, oneLine_repr ts, h.nonce, h.senderFp, h.receiverFp,
    oneLine_hexEncode _, by simp⟩

end LinkExchange

section Formats

open LinkExchange

variable {exchange exchange' : LinkExchange}

/-- The associated data of a request tells the exchange. -/
theorem requestAad_injective (h : exchange.Plain) (h' : exchange'.Plain)
    (hsame : requestAad exchange = requestAad exchange') : exchange = exchange' := by
  rw [requestAad_lines, requestAad_lines] at hsame
  have hlines := lines_injective h.requestLines h'.requestLines (by simp [requestLines])
    (by simp [requestLines]) hsame
  simp only [requestLines, List.cons.injEq] at hlines
  obtain ⟨-, hmethod, hpath, hsender, hreceiver, hnonce, -⟩ := hlines
  cases exchange
  simp_all

/-- The associated data of a response tells the exchange of its request. -/
theorem responseAad_injective (h : exchange.Plain) (h' : exchange'.Plain)
    (hsame : responseAad exchange = responseAad exchange') : exchange = exchange' := by
  rw [responseAad_lines, responseAad_lines] at hsame
  have hlines := lines_injective h.responseLines h'.responseLines (by simp [responseLines])
    (by simp [responseLines]) hsame
  simp only [responseLines, List.cons.injEq] at hlines
  obtain ⟨-, hmethod, hpath, hreceiver, hsender, hnonce, -⟩ := hlines
  cases exchange
  simp_all

/-- Requests and responses are kept apart. -/
theorem requestAad_ne_responseAad (h : exchange.Plain) (h' : exchange'.Plain) :
    requestAad exchange ≠ responseAad exchange' := by
  rw [requestAad_lines, responseAad_lines]
  apply lines_ne h.requestLines h'.responseLines <;> simp [requestLines, responseLines]

variable {c : Primitives} {ts ts' : Int} {body body' : List UInt8}

/-- The message of a tag tells the exchange, the time and the digest of the body. -/
theorem linkAuthMessage_injective (h : exchange.Plain) (h' : exchange'.Plain)
    (hsame : linkAuthMessage c exchange ts body = linkAuthMessage c exchange' ts' body') :
    exchange = exchange' ∧ ts = ts' ∧ c.sha256 body = c.sha256 body' := by
  rw [linkAuthMessage_lines, linkAuthMessage_lines] at hsame
  have hlines := lines_injective (h.tagLines c ts body) (h'.tagLines c ts' body')
    (by simp [tagLines]) (by simp [tagLines]) hsame
  simp only [tagLines, List.cons.injEq] at hlines
  obtain ⟨-, hmethod, hpath, hts, hnonce, hsender, hreceiver, hdigest, -⟩ := hlines
  have hbytes := hexEncode_injective (by simp) hdigest
  refine ⟨?_, Int.repr_injective hts, Vector.toList_inj.mp hbytes⟩
  cases exchange
  simp_all

/-- No signed text is the additional data of a request. -/
theorem linkAuthMessage_ne_requestAad (h : exchange.Plain) (h' : exchange'.Plain) :
    linkAuthMessage c exchange ts body ≠ requestAad exchange' := by
  rw [linkAuthMessage_lines, requestAad_lines]
  apply lines_ne (h.tagLines c ts body) h'.requestLines <;> simp [tagLines, requestLines]

/-- No signed text is the additional data of a reply. -/
theorem linkAuthMessage_ne_responseAad (h : exchange.Plain) (h' : exchange'.Plain) :
    linkAuthMessage c exchange ts body ≠ responseAad exchange' := by
  rw [linkAuthMessage_lines, responseAad_lines]
  apply lines_ne (h.tagLines c ts body) h'.responseLines <;> simp [tagLines, responseLines]

/-- Tags and control credentials are kept apart, whatever their fields are. -/
theorem linkAuthMessage_ne_controlCredentialMessage (initiatorFp responderFp : String) :
    linkAuthMessage c exchange ts body ≠ controlCredentialMessage initiatorFp responderFp := by
  intro hsame
  have htext := congrArg (String.toList · |>.take 5) (utf8_injective hsame)
  simp [toString] at htext

end Formats

end Link
