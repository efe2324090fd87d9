import Rdap.Protocol.Bech32mRoundTrip
import Rdap.Python.JsonSize
import Rdap.Relay.Settled

/-!
# How large a reply gets

The text of a reply is cut to its limit in bytes before it is written as JSON. A character that JSON
escapes takes up to six bytes of the envelope instead of one, so that the limit of the text alone does
not keep the envelope within its own.
-/

set_option autoImplicit false

namespace Rdap.Relay
open Python Protocol Lib Identity

/-! ## The text that is kept -/

/-- The characters that are looked at, without surrogates. -/
def answerShown (text : PyStr) : PyStr := replaceSurrogates (text.take maxRelayTextChars)

/-- What is kept of a brain's result: all of it, or the characters that leave room for the note. -/
def keptAnswer (text : PyStr) : PyStr :=
  if text.length ≤ maxRelayTextChars ∧ utf8Len (answerShown text) ≤ maxRelayAnswerBytes then answerShown text
  else fittingText (maxRelayAnswerBytes - truncationSuffix.length) (answerShown text) ++ truncationSuffix

theorem truncationSuffix_bytes : HasBytes truncationSuffix truncationSuffix.length := hasBytes_ascii (by decide)

theorem boundedAnswerText_eq (text : PyStr) : boundedAnswerText text = .ok (keptAnswer text) := by
  have hencoded := encodeUtf8Replace_eq (text.take maxRelayTextChars)
  have hclean := replaceSurrogates_clean (text.take maxRelayTextChars)
  obtain ⟨bytes, hbytes, hlength⟩ := encodeUtf8_defined hclean
  obtain rfl : encodeUtf8Replace (text.take maxRelayTextChars) = bytes := Except.ok.inj (hencoded.symm.trans hbytes)
  obtain ⟨suffix, hsuffix, hsuffixLength⟩ := truncationSuffix_bytes.encode
  unfold boundedAnswerText keptAnswer answerShown
  simp only [decodeUtf8_encodeUtf8 hencoded, hsuffix, bind, Except.bind, hlength, hsuffixLength,
    decodeUtf8_take hencoded]
  by_cases hfits : text.length ≤ maxRelayTextChars ∧
      utf8Len (replaceSurrogates (text.take maxRelayTextChars)) ≤ maxRelayAnswerBytes
  · rw [if_pos hfits, if_pos hfits]
    rfl
  · rw [if_neg hfits, if_neg hfits]
    rfl

theorem clean_of_initial {s t : PyStr} (h : s <+: t) (ht : t.any isSurrogate = false) : s.any isSurrogate = false := by
  rw [List.any_eq_false] at ht ⊢
  exact fun c hc => ht c (h.subset hc)

/-- The text of a reply is UTF-8 within its limit. -/
theorem keptAnswer_bytes (text : PyStr) : ∃ n, n ≤ maxRelayAnswerBytes ∧ HasBytes (keptAnswer text) n := by
  have hclean : (answerShown text).any isSurrogate = false := replaceSurrogates_clean _
  unfold keptAnswer
  split
  · rename_i hfits
    exact ⟨_, hfits.2, hclean, rfl⟩
  · have hhead : HasBytes (fittingText (maxRelayAnswerBytes - truncationSuffix.length) (answerShown text)) _ :=
      ⟨clean_of_initial (fittingText_initial _ _) hclean, rfl⟩
    refine ⟨_, ?_, hhead.append truncationSuffix_bytes⟩
    have hbudget := utf8Len_fittingText (maxRelayAnswerBytes - truncationSuffix.length) (answerShown text)
    have hroom : truncationSuffix.length ≤ maxRelayAnswerBytes := by decide
    omega

theorem length_le_utf8Len (s : PyStr) : s.length ≤ utf8Len s := by
  induction s with
  | nil => exact Nat.le_refl 0
  | cons c s ih =>
    have hpos : 0 < charBytes c := Char.utf8Size_pos _
    rw [utf8Len_cons, List.length_cons]
    omega

/-! ## The address of the node -/

section
variable (P : Platform)

/-- The address of a node is a component of a path. -/
theorem address_isPeerComponent (publicKey : Bytes) : isPeerComponent (Address.encode P publicKey) = true := by
  obtain ⟨data, hdata, hlt, hback⟩ := Bech32m.groups (Address.addressVersion :: Address.keyHash P publicKey)
  have hhash : (Address.keyHash P publicKey).length = 20 := by
    rw [Address.keyHash, List.length_take, P.sha256_length]
    rfl
  have hsize := Bech32m.convertbits_length (by decide) hback
  rw [List.length_map, List.length_cons, hhash] at hsize
  have hshort := Address.encode_length P publicKey
  have hform : Address.encode P publicKey =
      [114, 118, 110, 49] ++ (data ++ Bech32m.createChecksum (lit "rvn") data).map Bech32m.charAt :=
    Bech32m.encode_eq hdata
  have hlength := congrArg List.length hform
  rw [List.length_append, List.length_map, List.length_append, Bech32m.createChecksum_length] at hlength
  have hplain : Bech32m.charset.all (fun c => (48 ≤ c.val && c.val ≤ 57) || (97 ≤ c.val && c.val ≤ 122)) = true := by
    decide
  have hletters : ((data ++ Bech32m.createChecksum (lit "rvn") data).map Bech32m.charAt).all
      (fun c => (48 ≤ c.val && c.val ≤ 57) || (97 ≤ c.val && c.val ≤ 122)) = true := by
    rw [List.all_eq_true] at hplain ⊢
    intro c hc
    obtain ⟨d, hd, rfl⟩ := List.mem_map.mp hc
    exact hplain _ (Bech32m.charAt_mem (Bech32m.symbols_lt hlt d hd))
  have hstart : startsWith (Address.encode P publicKey) (lit "rvn1") = true := by
    rw [hform]
    exact List.isPrefixOf_iff_prefix.mpr (List.prefix_append _ _)
  have hdrop : (Address.encode P publicKey).drop 4 =
      (data ++ Bech32m.createChecksum (lit "rvn") data).map Bech32m.charAt := by
    rw [hform]
    rfl
  have htail : 20 ≤ ((Address.encode P publicKey).drop 4).length ∧
      ((Address.encode P publicKey).drop 4).length ≤ 124 := by
    have hfour : ([114, 118, 110, 49] : PyStr).length = 4 := rfl
    rw [List.length_drop]
    omega
  simp only [isPeerComponent, hstart, htail, Bool.and_eq_true, decide_eq_true_eq]
  rw [hdrop, hletters]
  exact ⟨⟨⟨trivial, trivial⟩, trivial⟩, rfl⟩

end

/-! ## The reply -/

/-- What a reply is built for: a sender and a task id that were validated, a clock that can be read, and a
signer with the signatures and the nonces of Ed25519. -/
structure ReplySetting (P : Platform) (node : RelayNode) (taskId sender localTime : PyStr) (now : Int)
    (nonceRaw : Bytes) : Prop where
  sender : isPeerComponent sender = true
  taskId_present : taskId ≠ []
  taskId_short : taskId.length ≤ 128
  taskId_printable : taskId.all P.isPrintable = true
  taskId_clean : taskId.any isSurrogate = false
  localTime : localTime.any isSurrogate = false
  clock : ClockReading now
  nonce : nonceRaw.length = nonceBytes
  signs : ∀ message, (node.identity.sign message).length = 64
  depth : 2 ≤ P.recursionLimit

section
variable {P : Platform} {node : RelayNode} {taskId sender localTime : PyStr} {now : Int} {nonceRaw : Bytes}

theorem isPeerComponent_verbatim {peer : PyStr} (h : isPeerComponent peer = true) : peer.all Json.isVerbatim = true := by
  simp only [isPeerComponent, Bool.and_eq_true, decide_eq_true_eq] at h
  obtain ⟨⟨⟨hstart, -⟩, -⟩, hletters⟩ := h
  obtain ⟨tail, htail⟩ := List.isPrefixOf_iff_prefix.mp hstart
  have hhead : lit "rvn1" = [114, 118, 110, 49] := rfl
  rw [hhead] at htail
  subst htail
  have hrest : tail.all Json.isVerbatim = true := by
    rw [List.all_eq_true] at hletters ⊢
    intro c hc
    have hletter := hletters c (by simpa using hc)
    simp only [Bool.or_eq_true, Bool.and_eq_true, decide_eq_true_eq] at hletter
    simp only [Json.isVerbatim, Bool.and_eq_true, decide_eq_true_eq]
    omega
  rw [List.all_append, hrest]
  rfl

theorem isPeerComponent_ascii {peer : PyStr} (h : isPeerComponent peer = true) :
    peer.all isAscii = true ∧ peer.length ≤ 128 ∧ peer ≠ [] := by
  have hverbatim := isPeerComponent_verbatim h
  simp only [isPeerComponent, Bool.and_eq_true, decide_eq_true_eq, List.length_drop] at h
  obtain ⟨⟨⟨-, hlong⟩, hshort⟩, -⟩ := h
  refine ⟨Json.ascii_of_verbatim hverbatim, by omega, ?_⟩
  rintro rfl
  exact absurd hlong (by decide)

theorem clean_of_ascii {s : PyStr} (h : s.all isAscii = true) : s.any isSurrogate = false :=
  (hasBytes_ascii h).clean

/-- The fields that the signature of a reply covers. -/
def replyFields (P : Platform) (node : RelayNode) (taskId sender : PyStr) (now : Int) (nonceRaw : Bytes)
    (text : PyStr) : DelegationFields where
  sender := node.address P
  recipient := sender
  taskId := taskId
  kind := lit "answer"
  issuedAt := now
  expiresAt := now + maxDelegationTtlSeconds
  text := text
  nonce := hex nonceRaw

/-- The envelope around a text. -/
def replyOf (P : Platform) (node : RelayNode) (taskId sender localTime : PyStr) (now : Int) (nonceRaw : Bytes)
    (text : PyStr) (message : Bytes) : Dict := [
  (lit "id", .str taskId),
  (lit "kind", .str (lit "answer")),
  (lit "from", .str (node.address P)),
  (lit "to", .str sender),
  (lit "text", .str text),
  (lit "at", .str localTime),
  (lit "raven", .dict (delegationMetadata (replyFields P node taskId sender now nonceRaw text)
    (b64encode (node.identity.sign message))))]

theorem replyFields_signable (h : ReplySetting P node taskId sender localTime now nonceRaw) (answer : PyStr) :
    ∃ message, delegationSigningBytes P
      (replyFields P node taskId sender now nonceRaw (keptAnswer answer)) = .ok message := by
  obtain ⟨hsenderAscii, hsenderShort, -⟩ := isPeerComponent_ascii h.sender
  obtain ⟨n, -, hkept⟩ := keptAnswer_bytes answer
  obtain ⟨text, htext, -⟩ := hkept.encode
  obtain ⟨own, hown, hownShort⟩ := encodeUtf8_of_ascii (Address.encode_ascii P node.identity.publicBytes)
  have hownLength := Address.encode_length P node.identity.publicBytes
  obtain ⟨recipient, hrecipient, hrecipientShort⟩ := encodeUtf8_of_ascii hsenderAscii
  obtain ⟨task, htask, -⟩ := encodeUtf8_defined h.taskId_clean
  have htaskShort := encodeUtf8_length htask
  have htaskLength := h.taskId_short
  obtain ⟨kind, hkind, hkindShort⟩ := encodeAscii_of_ascii (s := lit "answer") (by decide)
  have hkindLength : (lit "answer").length = 6 := by decide
  have hday : maxDelegationTtlSeconds = 86400 := by decide
  obtain ⟨issued, hissued, hissuedShort⟩ := encodeInt_near_clock h.clock (n := now) (by omega) (by omega)
  obtain ⟨expires, hexpires, hexpiresShort⟩ :=
    encodeInt_near_clock h.clock (n := now + maxDelegationTtlSeconds) (by omega) (by omega)
  have hnonce := fromhex_hex nonceRaw
  have hnonceLength := h.nonce
  have hmax : lpMaxLen = 65535 := rfl
  have hsixteen : nonceBytes = 16 := rfl
  apply delegationSigningBytes_of_encoded (f := replyFields P node taskId sender now nonceRaw (keptAnswer answer))
    hown hrecipient htask hkind htext hissued hexpires hnonce
  simp only [List.mem_cons, List.not_mem_nil, or_false, forall_eq_or_imp, forall_eq]
  omega

theorem buildReply_defined (h : ReplySetting P node taskId sender localTime now nonceRaw) (answer : PyStr) :
    ∃ message, buildReply P node taskId sender answer localTime now nonceRaw =
      .ok (replyOf P node taskId sender localTime now nonceRaw (keptAnswer answer) message) := by
  obtain ⟨message, hmessage⟩ := replyFields_signable h answer
  obtain ⟨-, -, hsenderPresent⟩ := isPeerComponent_ascii h.sender
  refine ⟨message, ?_⟩
  have hkey : validateAddressPublicKey P (node.identity.address P) node.identity.publicHex =
      .ok node.identity.publicBytes :=
    validateAddressPublicKey_of_hex P (fromhex_hex _) node.identity.publicBytes_length
  have hday : maxDelegationTtlSeconds = 86400 := by decide
  have hallowed : (Lifetime.mk none none maxDelegationTtlSeconds).allowed now = true := by
    simp [Lifetime.allowed, Lifetime.expiry, Lifetime.start, hday]
  have hkinds : ¬(lit "answer" ≠ lit "task" ∧ lit "answer" ≠ lit "answer") := fun hk => hk.2 rfl
  have hpresent : ¬(sender = [] ∨ taskId = []) := by
    rintro (hnone | hnone)
    · exact hsenderPresent hnone
    · exact h.taskId_present hnone
  have hbytes : delegationSigningBytes P (DelegationFields.mk (node.identity.address P) sender taskId (lit "answer")
      ((Lifetime.mk none none maxDelegationTtlSeconds).start now)
      ((Lifetime.mk none none maxDelegationTtlSeconds).expiry now) (keptAnswer answer) (hex nonceRaw)) =
        .ok message := hmessage
  have htrue : ¬(!true) = true := Bool.false_ne_true
  unfold buildReply signDelegation
  rw [boundedAnswerText_eq]
  simp only [bind, Except.bind]
  rw [hkey]
  simp only
  rw [if_neg hpresent, if_neg hkinds, hallowed, if_neg htrue, hbytes]
  rfl

/-! ## What the envelope passes -/

theorem require_of {c : Prop} [Decidable c] {message : PyStr} (h : c) : require c message = .ok () := if_pos h

theorem checkUnicode_of {name : String} {value : PyStr} {encoded : Bytes} (h : encodeUtf8 value = .ok encoded) :
    checkUnicode name value = .ok encoded := by
  rw [checkUnicode, h]

theorem component_of {peer : PyStr} (h : isPeerComponent peer = true) : validatePeerComponent peer = .ok () :=
  if_pos h

theorem reply_validated (h : ReplySetting P node taskId sender localTime now nonceRaw) (answer : PyStr)
    (message : Bytes) : ∃ envelope, validatedEnvelope P
      (.dict (replyOf P node taskId sender localTime now nonceRaw (keptAnswer answer) message)) (lit "answer") =
        .ok envelope := by
  obtain ⟨hsenderAscii, -, hsenderPresent⟩ := isPeerComponent_ascii h.sender
  obtain ⟨n, hn, hkept⟩ := keptAnswer_bytes answer
  obtain ⟨text, htext, htextLength⟩ := hkept.encode
  have hchars : (keptAnswer answer).length ≤ n := hkept.length ▸ length_le_utf8Len _
  have hown : isPeerComponent (node.address P) = true := address_isPeerComponent P node.identity.publicBytes
  obtain ⟨hownAscii, -, hownPresent⟩ := isPeerComponent_ascii hown
  obtain ⟨own, hownBytes, -⟩ := (hasBytes_ascii hownAscii).encode
  obtain ⟨recipient, hrecipient, -⟩ := (hasBytes_ascii hsenderAscii).encode
  obtain ⟨task, htask, -⟩ := encodeUtf8_defined h.taskId_clean
  obtain ⟨kind, hkind, -⟩ := (hasBytes_ascii (s := lit "answer") (by decide)).encode
  have hsmall : maxRelayAnswerBytes ≤ maxRelayTextChars ∧ maxRelayAnswerBytes ≤ maxRelayTextBytes := by decide
  have hlimits : (keptAnswer answer).length ≤ maxRelayTextChars ∧ text.length ≤ maxRelayTextBytes := by omega
  obtain ⟨ascii, hascii, -⟩ := encodeAscii_of_ascii (decodeQuads_b64encode (node.identity.sign message)).2
  have hpresent : b64encode (node.identity.sign message) ≠ [] := by
    intro hnil
    have hlength := b64encode_length (node.identity.sign message)
    rw [hnil, h.signs, List.length_nil] at hlength
    omega
  have hhash : signatureHash P (b64encode (node.identity.sign message)) = .ok (hex (P.sha256 ascii)) := by
    rw [signatureHash, hascii]
  refine ⟨⟨delegationMetadata (replyFields P node taskId sender now nonceRaw (keptAnswer answer))
    (b64encode (node.identity.sign message)), node.address P, sender, taskId, keptAnswer answer,
    b64encode (node.identity.sign message)⟩, ?_⟩
  have hfields : ∀ text : PyStr,
      let reply := replyOf P node taskId sender localTime now nonceRaw text message
      Dict.getD reply (lit "raven") .none = .dict (delegationMetadata
        (replyFields P node taskId sender now nonceRaw text) (b64encode (node.identity.sign message))) ∧
      Dict.getD reply (lit "from") .none = .str (node.address P) ∧
      Dict.getD reply (lit "to") .none = .str sender ∧ Dict.getD reply (lit "id") .none = .str taskId ∧
      Dict.getD reply (lit "kind") .none = .str (lit "answer") ∧
      Dict.getD reply (lit "text") .none = .str text :=
    fun _ => ⟨rfl, rfl, rfl, rfl, rfl, rfl⟩
  have hsignature : ∀ f : DelegationFields, ∀ signature : PyStr,
      Dict.getD (delegationMetadata f signature) (lit "signature") .none = .str signature := fun _ _ => rfl
  have hnamed : node.address P ≠ [] ∧ sender ≠ [] ∧ taskId ≠ [] := ⟨hownPresent, hsenderPresent, h.taskId_present⟩
  obtain ⟨hraven, hfrom, hto, hid, hkindField, htextField⟩ := hfields (keptAnswer answer)
  simp only [validatedEnvelope, hraven, hfrom, hto, hid, hkindField, htextField, checkUnicode_of hownBytes,
    checkUnicode_of hrecipient, checkUnicode_of htask, checkUnicode_of hkind, checkUnicode_of htext,
    require_of hnamed, component_of hown,
    component_of h.sender, require_of h.taskId_short, require_of h.taskId_printable, require_of hlimits,
    require_of trivial, hsignature, require_of hpresent, hhash, bind, Except.bind, pure, Except.pure]

/-! ## How many bytes it is written in -/

/-- What the file of the outbox has around the text of its envelope. -/
def frameBytes (P : Platform) (node : RelayNode) (taskId sender localTime : PyStr) (now : Int) : Nat :=
  451 + 2 * (node.address P).length + 2 * sender.length + 2 * (taskId.map Json.escapedBytes).sum +
    (localTime.map Json.escapedBytes).sum + (intDecimal now).length +
    (intDecimal (now + maxDelegationTtlSeconds)).length

theorem reply_size (h : ReplySetting P node taskId sender localTime now nonceRaw) (text : PyStr) (message : Bytes) :
    Json.jsonBytes Json.indented 0 (.dict (replyOf P node taskId sender localTime now nonceRaw text message)) + 1 =
      (text.map Json.escapedBytes).sum + frameBytes P node taskId sender localTime now := by
  have hkeys : Json.stringBytes (lit "id") = 4 ∧ Json.stringBytes (lit "kind") = 6 ∧
      Json.stringBytes (lit "from") = 6 ∧ Json.stringBytes (lit "to") = 4 ∧ Json.stringBytes (lit "text") = 6 ∧
      Json.stringBytes (lit "at") = 4 ∧ Json.stringBytes (lit "raven") = 7 := by decide
  have hblockKeys : Json.stringBytes (lit "sender") = 8 ∧ Json.stringBytes (lit "recipient") = 11 ∧
      Json.stringBytes (lit "task_id") = 9 ∧ Json.stringBytes (lit "issued_at") = 11 ∧
      Json.stringBytes (lit "expires_at") = 12 ∧ Json.stringBytes (lit "nonce") = 7 ∧
      Json.stringBytes (lit "algorithm") = 11 ∧ Json.stringBytes (lit "context") = 9 ∧
      Json.stringBytes (lit "signature") = 11 := by decide
  have hvalues : Json.stringBytes (lit "answer") = 8 ∧ Json.stringBytes (lit "ed25519") = 9 ∧
      Json.stringBytes signingContext = signingContext.length + 2 := by decide
  have hown : Json.stringBytes (node.address P) = (node.address P).length + 2 :=
    Json.stringBytes_verbatim (isPeerComponent_verbatim (address_isPeerComponent P node.identity.publicBytes))
  have hsender := Json.stringBytes_verbatim (isPeerComponent_verbatim h.sender)
  have hnonce := Json.stringBytes_verbatim (Json.hex_verbatim nonceRaw)
  have hsignature := Json.stringBytes_verbatim (Json.b64encode_verbatim (node.identity.sign message))
  have hbreaks : ∀ depth, (Json.indented.lineBreak depth).length = 1 + 2 * depth := by
    intro depth
    simp [Json.indented]
    omega
  have hgap : Json.indented.gap.length = 1 := rfl
  have hcontext : signingContext.length = 23 := by decide
  simp only [replyOf, replyFields, delegationMetadata, Json.jsonBytes, Json.jsonBytesMembers, hkeys, hblockKeys,
    hvalues, hbreaks, hgap, hcontext, hown, hsender, hnonce, hsignature, hex_length, h.nonce, b64encode_length, h.signs]
  simp only [Json.stringBytes, frameBytes, nonceBytes]
  omega

theorem reply_writable (h : ReplySetting P node taskId sender localTime now nonceRaw) {text : PyStr}
    (htext : text.any isSurrogate = false) (message : Bytes) :
    Json.Writable (.dict (replyOf P node taskId sender localTime now nonceRaw text message)) := by
  have hown : (node.address P).any isSurrogate = false :=
    clean_of_ascii (Address.encode_ascii P node.identity.publicBytes)
  have hsender := clean_of_ascii (isPeerComponent_ascii h.sender).1
  have hsmall := clock_small h.clock
  have hdigits : 10 ^ clockDigits ≤ 10 ^ maxStrDigits := Nat.pow_le_pow_right (by decide) (by decide)
  have hday : maxDelegationTtlSeconds = 86400 := by decide
  have hissued : strInt now = .ok (intDecimal now) := strInt_defined (by omega)
  have hexpires : strInt (now + maxDelegationTtlSeconds) = .ok (intDecimal (now + maxDelegationTtlSeconds)) :=
    strInt_defined (by omega)
  have hnonce := clean_of_ascii (hex_ascii nonceRaw)
  have hsignature := clean_of_ascii (decodeQuads_b64encode (node.identity.sign message)).2
  have hnames : [lit "id", lit "kind", lit "from", lit "to", lit "text", lit "at", lit "raven", lit "sender",
      lit "recipient", lit "task_id", lit "issued_at", lit "expires_at", lit "nonce", lit "algorithm",
      lit "context", lit "signature", lit "answer", lit "ed25519", signingContext].all
        (fun name => !name.any isSurrogate) = true := by decide
  simp only [List.all_cons, List.all_nil, Bool.and_eq_true, Bool.not_eq_true', and_true] at hnames
  simp only [replyOf, replyFields, delegationMetadata, Json.Writable, Json.WritableMembers, hnames, hown, hsender,
    h.taskId_clean, htext, h.localTime, hissued, hexpires, hnonce, hsignature, and_true]

/-- The file of a reply is written if it fits. -/
theorem envelopePayload_iff (h : ReplySetting P node taskId sender localTime now nonceRaw) {text : PyStr}
    (htext : text.any isSurrogate = false) (message : Bytes) :
    (∃ payload, envelopePayload P (replyOf P node taskId sender localTime now nonceRaw text message) = .ok payload) ↔
      (text.map Json.escapedBytes).sum + frameBytes P node taskId sender localTime now ≤
        maxRelayEnvelopeBytes := by
  have hdepth : Json.depth (.dict (replyOf P node taskId sender localTime now nonceRaw text message)) ≤
      P.recursionLimit := h.depth
  obtain ⟨document, hdocument, hbytes⟩ :=
    Json.dumps_bytes Json.indented (reply_writable h htext message) hdepth
  have hbreak : HasBytes [10] 1 := hasBytes_ascii (by decide)
  obtain ⟨payload, hpayload, hlength⟩ := (hbytes.append hbreak).encode
  rw [reply_size h] at hlength
  simp only [envelopePayload, hdocument, hpayload, bind, Except.bind, hlength]
  by_cases hfits : (text.map Json.escapedBytes).sum + frameBytes P node taskId sender localTime now ≤
      maxRelayEnvelopeBytes
  · rw [if_neg (Nat.not_lt.mpr hfits)]
    exact ⟨fun _ => hfits, fun _ => ⟨payload, rfl⟩⟩
  · rw [if_pos (Nat.lt_of_not_le hfits)]
    refine ⟨?_, fun hle => absurd hle hfits⟩
    rintro ⟨_, hnone⟩
    cases hnone

/-- A reply whose file fits is stored as well. -/
theorem serializeReply_of_fits (h : ReplySetting P node taskId sender localTime now nonceRaw) {text : PyStr}
    (htext : text.any isSurrogate = false) (message : Bytes)
    (hfits : (text.map Json.escapedBytes).sum + frameBytes P node taskId sender localTime now ≤
      maxRelayEnvelopeBytes) :
    ∃ serialized, serializeReply P (replyOf P node taskId sender localTime now nonceRaw text message) =
      .ok serialized := by
  have hdepth : Json.depth (.dict (replyOf P node taskId sender localTime now nonceRaw text message)) ≤
      P.recursionLimit := h.depth
  obtain ⟨document, hdocument, hbytes⟩ :=
    Json.dumps_bytes Json.compact (reply_writable h htext message) hdepth
  obtain ⟨encoded, hencoded, hlength⟩ := hbytes.encode
  have hshorter := Json.jsonBytes_compact Json.indented
    (.dict (replyOf P node taskId sender localTime now nonceRaw text message)) 0 0
  have hsize := reply_size h text message
  have hwithin : ¬ maxRelayEnvelopeBytes < encoded.length := by omega
  refine ⟨document, ?_⟩
  simp only [serializeReply, hdocument, hencoded, bind, Except.bind]
  exact if_neg hwithin

/-! ## Replies that fit -/

/-- A reply is built whose text is within its limit, that its receiver validates, and that is stored and
written. -/
structure ReplySound (P : Platform) (node : RelayNode) (taskId sender answer localTime : PyStr) (now : Int)
    (nonceRaw : Bytes) (reply : Dict) : Prop where
  built : buildReply P node taskId sender answer localTime now nonceRaw = .ok reply
  text : ∃ text encoded, Dict.getD reply (lit "text") .none = .str text ∧ encodeUtf8 text = .ok encoded ∧
    encoded.length ≤ maxRelayAnswerBytes
  validated : ∃ envelope, validatedEnvelope P (.dict reply) (lit "answer") = .ok envelope
  stored : ∃ serialized, serializeReply P reply = .ok serialized
  written : ∃ payload, envelopePayload P reply = .ok payload

/-- A reply fits exactly if what JSON makes of its text leaves room for the rest of the envelope. -/
theorem reply_fits_iff (h : ReplySetting P node taskId sender localTime now nonceRaw) (answer : PyStr) :
    (∃ reply, ReplySound P node taskId sender answer localTime now nonceRaw reply) ↔
      ((keptAnswer answer).map Json.escapedBytes).sum + frameBytes P node taskId sender localTime now ≤
        maxRelayEnvelopeBytes := by
  obtain ⟨message, hbuilt⟩ := buildReply_defined h answer
  obtain ⟨n, hn, hkept⟩ := keptAnswer_bytes answer
  obtain ⟨text, htext, hlength⟩ := hkept.encode
  constructor
  · rintro ⟨reply, hreply⟩
    obtain rfl := Except.ok.inj (hbuilt.symm.trans hreply.built)
    exact (envelopePayload_iff h hkept.clean message).mp hreply.written
  · intro hfits
    refine ⟨_, hbuilt, ⟨keptAnswer answer, text, rfl, htext, by omega⟩, reply_validated h answer message, ?_, ?_⟩
    · exact serializeReply_of_fits h hkept.clean message hfits
    · exact (envelopePayload_iff h hkept.clean message).mpr hfits

end

/-- A text of one character is kept as long as it is within both limits. -/
theorem keptAnswer_replicate {c : CodePoint} (hc : isSurrogate c = false) {n : Nat} (hchars : n ≤ maxRelayTextChars)
    (hbytes : n * charBytes c ≤ maxRelayAnswerBytes) : keptAnswer (List.replicate n c) = List.replicate n c := by
  have hshown : answerShown (List.replicate n c) = List.replicate n c := by
    rw [answerShown, replaceSurrogates, List.take_replicate, Nat.min_eq_right hchars, List.map_replicate, hc]
    rfl
  have hlength : utf8Len (List.replicate n c) = n * charBytes c := by
    rw [utf8Len, List.map_replicate, List.sum_replicate_nat]
  rw [keptAnswer, hshown, hlength, List.length_replicate, if_pos ⟨hchars, hbytes⟩]

namespace Sample

def localTime : PyStr := lit "2026-01-01 00:00:00"

theorem replySetting :
    ReplySetting platform node (lit "t1") Identity.Sample.address localTime 1100 (List.replicate 16 1) where
  sender := by decide +kernel
  taskId_present := by decide
  taskId_short := by decide
  taskId_printable := by decide +kernel
  taskId_clean := by decide
  localTime := by decide
  clock := clock
  nonce := rfl
  signs _ := rfl
  depth := by decide +kernel

theorem done_fits : ∃ reply, ReplySound platform node (lit "t1") Identity.Sample.address (lit "done") localTime 1100
    (List.replicate 16 1) reply :=
  (reply_fits_iff replySetting (lit "done")).mpr (by decide +kernel)

/-- A text of control characters at the limit takes six times as much in its envelope. -/
theorem controls_overflow : ReplySetting platform node (lit "t1") Identity.Sample.address localTime 1100
      (List.replicate 16 1) ∧
    ¬ ∃ reply, ReplySound platform node (lit "t1") Identity.Sample.address (List.replicate maxRelayAnswerBytes 1)
      localTime 1100 (List.replicate 16 1) reply := by
  refine ⟨replySetting, ?_⟩
  rintro ⟨reply, hreply⟩
  obtain ⟨message, hbuilt⟩ := buildReply_defined replySetting (List.replicate maxRelayAnswerBytes 1)
  obtain rfl := Except.ok.inj (hbuilt.symm.trans hreply.built)
  have hone : charBytes 1 = 1 := by decide
  have hkept := keptAnswer_replicate (c := 1) (by decide) (n := maxRelayAnswerBytes) (by decide)
    (by rw [hone, Nat.mul_one])
  obtain ⟨n, -, hbytes⟩ := keptAnswer_bytes (List.replicate maxRelayAnswerBytes 1)
  have hfits := (envelopePayload_iff replySetting hbytes.clean message).mp hreply.written
  have hsix : Json.escapedBytes 1 = 6 := by decide
  rw [hkept, Json.escaped_replicate, hsix] at hfits
  have hlimits : maxRelayEnvelopeBytes < maxRelayAnswerBytes * 6 := by decide
  omega

end Sample

end Rdap.Relay
