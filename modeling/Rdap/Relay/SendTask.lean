import Rdap.Relay.ReplyDelivery
import Rdap.Relay.ReplySize

/-!
# Tasks that are answered

What `send_task` writes, and what becomes of it at a receiver with the sender's key among its peers. An
honest envelope is read back as it was written, validated and verified; so the turn of the inbox runs the
brain once and publishes a reply, and the file of that reply is accepted by the node that sent the task.
-/

set_option autoImplicit false

namespace Rdap.Relay
open Python Protocol Lib Identity Agent

variable (P : Platform)

def boundedTaskText (text : PyStr) : Except PyExc Unit :=
  let failure := lit "relay task text must be bounded text"
  if maxRelayTextChars < text.length then valueError failure
  else do
    let encoded ← encodeUtf8 text
    require (encoded.length ≤ maxRelayTextBytes) failure

/-- `uuid.uuid4().hex[:12]` -/
def freshTaskId (uuid : Bytes) : PyStr := (hex uuid).take 12

/-- `send_task` up to the file: the bytes that are written. -/
def sendTask (node : RelayNode) (peerAddress text localTime : PyStr) (uuid : Bytes) (now : Int)
    (nonceRaw : Bytes) : Except PyExc Bytes := do
  validatePeerComponent peerAddress
  boundedTaskText text
  let taskId := freshTaskId uuid
  let block ← signDelegation P node.identity text peerAddress taskId (lit "task")
    { ttlSeconds := maxDelegationTtlSeconds } now nonceRaw
  envelopePayload P [
    (lit "id", .str taskId),
    (lit "kind", .str (lit "task")),
    (lit "from", .str (node.address P)),
    (lit "to", .str peerAddress),
    (lit "text", .str text),
    (lit "raven", .dict block),
    (lit "at", .str localTime)]

variable {P}

/-! ## Reading what was written -/

/-- The line break after a document is no part of it. -/
theorem loads_line {layout : Json.Layout} {v : Value} {text : PyStr} (hplain : Json.Plain v)
    (h : Json.dumps P layout v = .ok text) : Json.loads P (text ++ [10]) = .ok v := by
  unfold Json.dumps at h
  split at h
  · cases h
  · rename_i hdepth
    have hends : Json.EndsNumeral [10] := by
      intro c hc
      obtain rfl := Option.some.inj hc
      decide
    have hscan := Json.scanOnce_encode v P.recursionLimit hplain (Nat.le_of_not_lt hdepth) h hends
    obtain ⟨c, rest, hform, hspace, _, hascii⟩ := Json.encodeValue_head hplain h
    have hmark : (text ++ [10]).head? ≠ some Json.byteOrderMark := by
      rw [hform]
      intro he
      rw [Option.some.inj he] at hascii
      exact absurd hascii (by decide)
    have hskip : Json.skipSpace (text ++ [10]) = text ++ [10] := by
      rw [hform, List.cons_append, Json.skipSpace_cons hspace]
    have hbreak : Json.skipSpace [10] = [] := by decide
    simp only [Json.loads, hmark, if_false, hskip, hscan, bind, Except.bind, hbreak, if_true, pure, Except.pure]

theorem readEnvelope_written {items : Dict} {payload : Bytes} (name : PyStr) (hplain : Json.Plain (.dict items))
    (h : envelopePayload P items = .ok payload) :
    readEnvelope P (name, payload) = Json.dictSet items (lit "_file") (.str name) := by
  simp only [envelopePayload, bind_ok] at h
  obtain ⟨text, htext, encoded, hencoded, h⟩ := h
  split at h
  · cases h
  · rename_i hfits
    obtain rfl := pure_ok.mp h
    exact readEnvelope_of_text hencoded (Nat.le_of_not_lt hfits) (loads_line hplain htext)

/-! ## Honest envelopes -/

/-- The fields of an envelope that carries a delegation with its signature. -/
structure Carries (items : Dict) (f : DelegationFields) (signature : PyStr) : Prop where
  raven : Dict.getD items (lit "raven") .none = .dict (delegationMetadata f signature)
  sender : Dict.getD items (lit "from") .none = .str f.sender
  recipient : Dict.getD items (lit "to") .none = .str f.recipient
  taskId : Dict.getD items (lit "id") .none = .str f.taskId
  kind : Dict.getD items (lit "kind") .none = .str f.kind
  text : Dict.getD items (lit "text") .none = .str f.text
  unmarked : Dict.getD items (lit "_parse_error") .none = .none

/-- A key that is none of an envelope's own changes nothing. -/
theorem Carries.set {items : Dict} {f : DelegationFields} {signature : PyStr} (h : Carries items f signature)
    (v : Value) : Carries (Json.dictSet items (lit "_file") v) f signature := by
  have hother : ∀ key ∈ [lit "raven", lit "from", lit "to", lit "id", lit "kind", lit "text",
      lit "_parse_error"], key ≠ lit "_file" := by decide
  simp only [List.mem_cons, List.not_mem_nil, or_false, forall_eq_or_imp, forall_eq] at hother
  constructor <;> rw [Json.getD_dictSet, if_neg (by simp only [hother, not_false_eq_true])]
  · exact h.raven
  · exact h.sender
  · exact h.recipient
  · exact h.taskId
  · exact h.kind
  · exact h.text
  · exact h.unmarked

/-- A delegation that a signer in working order has signed and that an envelope has room for. -/
structure Honest (P : Platform) (identity : RavenIdentity) (f : DelegationFields) (message : Bytes) : Prop where
  signs : Signs P identity.publicBytes identity.sign
  sender : f.sender = identity.address P
  message : delegationSigningBytes P f = .ok message
  recipient : isPeerComponent f.recipient = true
  taskId_present : f.taskId ≠ []
  taskId_short : f.taskId.length ≤ 128
  taskId_printable : f.taskId.all P.isPrintable = true
  text_short : f.text.length ≤ maxRelayTextChars
  text_bytes : ∀ encoded, encodeUtf8 f.text = .ok encoded → encoded.length ≤ maxRelayTextBytes
  nonce : ∃ raw : Bytes, raw.length = nonceBytes ∧ f.nonce = hex raw

/-- What a verifier has read about a signer at a clock value. -/
structure Trusting (P : Platform) (policy : Policy) (identity : RavenIdentity) (now issuedAt expiresAt : Int) :
    Prop where
  pinned : ∃ peers pin, policy.peers = .ok peers ∧ peers.get? (identity.address P) = some pin ∧
    fromhex pin = .ok identity.publicBytes
  notRevoked : ∃ revoked, policy.revocations = .ok revoked ∧ identity.address P ∉ revoked
  lifetime : LifetimeOk now issuedAt expiresAt

section
variable {identity : RavenIdentity} {f : DelegationFields} {message : Bytes} {items : Dict} {policy : Policy}
  {now : Int}

theorem Honest.signature_present (h : Honest P identity f message) : b64encode (identity.sign message) ≠ [] := by
  intro hnil
  have hlength := b64encode_length (identity.sign message)
  rw [hnil, P.ed25519_signature_length (h.signs.verifies message), List.length_nil] at hlength
  omega

theorem signed_hashed (identity : RavenIdentity) (message : Bytes) :
    ∃ key, signatureHash P (b64encode (identity.sign message)) = .ok key := by
  obtain ⟨ascii, hascii, -⟩ := encodeAscii_of_ascii (decodeQuads_b64encode (identity.sign message)).2
  exact ⟨_, by rw [signatureHash, hascii]⟩

/-- The checks on the envelope pass. -/
theorem Honest.validated (h : Honest P identity f message)
    (hitems : Carries items f (b64encode (identity.sign message))) :
    validatedEnvelope P (.dict items) f.kind =
      .ok ⟨delegationMetadata f (b64encode (identity.sign message)), f.sender, f.recipient, f.taskId, f.text,
        b64encode (identity.sign message)⟩ := by
  obtain ⟨text, _, sender, recipient, taskId, kind, _, _, htext, _, hsender, hrecipient, htask, hkindAscii, _⟩ :=
    delegationSigningBytes_ok P h.message
  have hown : isPeerComponent f.sender = true := by
    rw [h.sender]
    exact address_isPeerComponent P identity.publicBytes
  obtain ⟨kindBytes, hkind, -⟩ := (hasBytes_ascii (encodeAscii_ok hkindAscii).1).encode
  have hnamed : f.sender ≠ [] ∧ f.recipient ≠ [] ∧ f.taskId ≠ [] :=
    ⟨(isPeerComponent_ascii hown).2.2, (isPeerComponent_ascii h.recipient).2.2, h.taskId_present⟩
  have hlimits : f.text.length ≤ maxRelayTextChars ∧ text.length ≤ maxRelayTextBytes :=
    ⟨h.text_short, h.text_bytes text htext⟩
  have hsignature : Dict.getD (delegationMetadata f (b64encode (identity.sign message))) (lit "signature") .none =
      .str (b64encode (identity.sign message)) := rfl
  obtain ⟨key, hkey⟩ := signed_hashed (P := P) identity message
  simp only [validatedEnvelope, hitems.raven, hitems.sender, hitems.recipient, hitems.taskId, hitems.kind,
    hitems.text, checkUnicode_of hsender, checkUnicode_of hrecipient, checkUnicode_of htask, checkUnicode_of hkind,
    checkUnicode_of htext, require_of hnamed, component_of hown, component_of h.recipient,
    require_of h.taskId_short, require_of h.taskId_printable, require_of hlimits, require_of trivial, hsignature,
    require_of h.signature_present, hkey, bind, Except.bind, pure, Except.pure]

/-- The verifier that leaves the cache alone accepts. -/
theorem Honest.verified (h : Honest P identity f message) (cache : ReplayCache) {peers : Peers} {pin : PyStr}
    (hpin : peers.get? (identity.address P) = some pin) (hkey : fromhex pin = .ok identity.publicBytes)
    {revoked : List PyStr} (hrevoked : identity.address P ∉ revoked)
    (hlife : LifetimeOk now f.issuedAt f.expiresAt) :
    (verifyDelegation P (delegationMetadata f (b64encode (identity.sign message))) f.text peers true revoked cache
      ⟨f.recipient, f.taskId, f.kind⟩ false Identity.noFaults now now .empty).1 =
        .ok (true, lit "verified " ++ f.sender) := by
  obtain ⟨raw, hraw, hnonce⟩ := h.nonce
  have hdecoded : fromhex f.nonce = .ok raw := hnonce ▸ fromhex_hex raw
  have hlength : f.nonce.length = nonceBytes * 2 := by
    rw [hnonce, hex_length, hraw, Nat.mul_comm]
  have hcheck := checkDelegation_admits h.signs h.sender h.message (delegationMetadata_presents _ _) hdecoded hlength
    (isPeerComponent_ascii h.recipient).2.2 h.taskId_present (h.sender ▸ hpin) hkey (h.sender ▸ hrevoked) hlife
  have hsome : delegationMetadata f (b64encode (identity.sign message)) ≠ [] := by simp [delegationMetadata]
  simp only [verifyDelegation, hsome, if_false, hcheck, Bool.false_eq_true]

theorem Carries.readable {signature : PyStr} (h : Carries items f signature) {file : SlotFile}
    (hread : readEnvelope P file = items) : ¬ malformed P file := by
  rw [malformed, hread, h.unmarked]
  decide

/-- The loops of the inbox and of the mailbox go on with an honest task. -/
theorem Honest.peeked (node : RelayNode) (h : Honest P identity f message)
    (hitems : Carries items f (b64encode (identity.sign message))) (hkind : f.kind = lit "task")
    (hrecipient : f.recipient = node.address P) (htrust : Trusting P policy identity now f.issuedAt f.expiresAt) :
    peek P node policy now (.dict items) =
      .ok ⟨b64encode (identity.sign message), f.expiresAt, f.sender, f.taskId, f.text⟩ := by
  obtain ⟨peers, pin, hpeers, hpin, hkey⟩ := htrust.pinned
  obtain ⟨revoked, hrevocations, hrevoked⟩ := htrust.notRevoked
  have hvalid := h.validated hitems
  have hverified := h.verified node.replay hpin hkey hrevoked htrust.lifetime
  have hblock := delegationMetadata_presents (P := P) f (b64encode (identity.sign message))
  rw [hkind] at hvalid hverified
  rw [hrecipient] at hverified
  simp only [peek, hvalid, orReject, raising, hblock.sender, hblock.expiresAt, hrecipient, hpeers, hrevocations,
    hverified, ensure, if_true, bind, Except.bind, pure, Except.pure]

/-- `take_replies` goes on with an honest reply. -/
theorem Honest.answers (node : RelayNode) (h : Honest P identity f message)
    (hitems : Carries items f (b64encode (identity.sign message))) (hkind : f.kind = lit "answer")
    (hrecipient : f.recipient = node.address P) (htrust : Trusting P policy identity now f.issuedAt f.expiresAt) :
    checkReply P node policy now (.dict items) = .ok (b64encode (identity.sign message)) := by
  obtain ⟨peers, pin, hpeers, hpin, hkey⟩ := htrust.pinned
  obtain ⟨revoked, hrevocations, hrevoked⟩ := htrust.notRevoked
  have hvalid := h.validated hitems
  have hverified := h.verified node.replay hpin hkey hrevoked htrust.lifetime
  have hblock := delegationMetadata_presents (P := P) f (b64encode (identity.sign message))
  rw [hkind] at hvalid hverified
  rw [hrecipient] at hverified
  simp only [checkReply, hvalid, orReject, raising, hblock.sender, hrecipient, hpeers, hrevocations, hverified,
    ensure, if_true, bind, Except.bind, pure, Except.pure]

end

/-! ## The task -/

/-- The fields that the signature of a task covers. -/
def taskFields (P : Platform) (node : RelayNode) (peerAddress text : PyStr) (uuid : Bytes) (now : Int)
    (nonceRaw : Bytes) : DelegationFields where
  sender := node.address P
  recipient := peerAddress
  taskId := freshTaskId uuid
  kind := lit "task"
  issuedAt := now
  expiresAt := now + maxDelegationTtlSeconds
  text := text
  nonce := hex nonceRaw

/-- The envelope of a task. -/
def taskOf (P : Platform) (node : RelayNode) (peerAddress text localTime : PyStr) (uuid : Bytes) (now : Int)
    (nonceRaw message : Bytes) : Dict := [
  (lit "id", .str (freshTaskId uuid)),
  (lit "kind", .str (lit "task")),
  (lit "from", .str (node.address P)),
  (lit "to", .str peerAddress),
  (lit "text", .str text),
  (lit "raven", .dict (delegationMetadata (taskFields P node peerAddress text uuid now nonceRaw)
    (b64encode (node.identity.sign message)))),
  (lit "at", .str localTime)]

section
variable {node : RelayNode} {peerAddress text localTime : PyStr} {uuid nonceRaw message payload : Bytes} {now : Int}

theorem boundedTaskText_ok {u : Unit} (h : boundedTaskText text = .ok u) : text.length ≤ maxRelayTextChars ∧
    ∀ encoded, encodeUtf8 text = .ok encoded → encoded.length ≤ maxRelayTextBytes := by
  unfold boundedTaskText at h
  dsimp only at h
  split at h
  · cases h
  · rename_i hchars
    simp only [bind_ok] at h
    obtain ⟨encoded, hencoded, h⟩ := h
    refine ⟨Nat.le_of_not_lt hchars, fun other hother => ?_⟩
    obtain rfl := Except.ok.inj (hencoded.symm.trans hother)
    unfold require at h
    split at h
    · assumption
    · cases h

/-- The fields of a delegation with the longest lifetime. -/
def longestFields (P : Platform) (identity : RavenIdentity) (text recipient taskId kind : PyStr) (now : Int)
    (nonceRaw : Bytes) : DelegationFields :=
  ⟨identity.address P, recipient, taskId, kind, now, now + maxDelegationTtlSeconds, text, hex nonceRaw⟩

theorem signDelegation_ok {identity : RavenIdentity} {recipient taskId kind : PyStr} {block : Dict}
    (h : signDelegation P identity text recipient taskId kind { ttlSeconds := maxDelegationTtlSeconds } now
      nonceRaw = .ok block) :
    taskId ≠ [] ∧ ∃ message,
      delegationSigningBytes P (longestFields P identity text recipient taskId kind now nonceRaw) = .ok message ∧
      block = delegationMetadata (longestFields P identity text recipient taskId kind now nonceRaw)
        (b64encode (identity.sign message)) := by
  simp only [signDelegation, bind_ok] at h
  obtain ⟨_, _, h⟩ := h
  split at h
  · cases h
  · rename_i hpresent
    split at h
    · cases h
    · split at h
      · cases h
      · simp only [bind_ok, pure_ok] at h
        obtain ⟨message, hmessage, rfl⟩ := h
        exact ⟨fun hnone => hpresent (Or.inr hnone), message, hmessage, rfl⟩

/-- What it means that a task was sent. -/
theorem sendTask_ok (h : sendTask P node peerAddress text localTime uuid now nonceRaw = .ok payload) :
    isPeerComponent peerAddress = true ∧ boundedTaskText text = .ok () ∧ freshTaskId uuid ≠ [] ∧
      ∃ message, delegationSigningBytes P (taskFields P node peerAddress text uuid now nonceRaw) = .ok message ∧
        envelopePayload P (taskOf P node peerAddress text localTime uuid now nonceRaw message) = .ok payload := by
  simp only [sendTask, bind_ok] at h
  obtain ⟨_, hpeer, _, htext, block, hblock, hpayload⟩ := h
  have hcomponent : isPeerComponent peerAddress = true := by
    unfold validatePeerComponent at hpeer
    split at hpeer
    · assumption
    · cases hpeer
  obtain ⟨hpresent, message, hmessage, rfl⟩ := signDelegation_ok hblock
  exact ⟨hcomponent, htext, hpresent, message, hmessage, hpayload⟩

theorem taskOf_plain : Json.Plain (.dict (taskOf P node peerAddress text localTime uuid now nonceRaw message)) := by
  refine ⟨?_, ?_⟩
  · have hkeys : [lit "id", lit "kind", lit "from", lit "to", lit "text", lit "raven", lit "at"].Nodup := by decide
    exact hkeys
  · have hblock := delegationMetadata_plain (taskFields P node peerAddress text uuid now nonceRaw)
      (b64encode (node.identity.sign message))
    simp [taskOf, Json.PlainMembers, Json.Plain] at hblock ⊢
    exact hblock

theorem taskOf_carries : Carries (taskOf P node peerAddress text localTime uuid now nonceRaw message)
    (taskFields P node peerAddress text uuid now nonceRaw) (b64encode (node.identity.sign message)) :=
  ⟨rfl, rfl, rfl, rfl, rfl, rfl, rfl⟩

/-- A task that was sent is honest. -/
theorem task_honest (hsigns : Signs P node.identity.publicBytes node.identity.sign)
    (hnonce : nonceRaw.length = nonceBytes) (hprintable : (freshTaskId uuid).all P.isPrintable = true)
    (hcomponent : isPeerComponent peerAddress = true) (htext : boundedTaskText text = .ok ())
    (hpresent : freshTaskId uuid ≠ [])
    (hmessage : delegationSigningBytes P (taskFields P node peerAddress text uuid now nonceRaw) = .ok message) :
    Honest P node.identity (taskFields P node peerAddress text uuid now nonceRaw) message where
  signs := hsigns
  sender := rfl
  message := hmessage
  recipient := hcomponent
  taskId_present := hpresent
  taskId_short := (List.length_take_le 12 _).trans (by decide)
  taskId_printable := hprintable
  text_short := (boundedTaskText_ok htext).1
  text_bytes := (boundedTaskText_ok htext).2
  nonce := ⟨nonceRaw, hnonce, rfl⟩

end

/-! ## The reply -/

section
variable {node : RelayNode} {taskId sender localTime : PyStr} {now : Int} {nonceRaw : Bytes}

theorem replyOf_carries {text : PyStr} {message : Bytes} :
    Carries (replyOf P node taskId sender localTime now nonceRaw text message)
      (replyFields P node taskId sender now nonceRaw text) (b64encode (node.identity.sign message)) :=
  ⟨rfl, rfl, rfl, rfl, rfl, rfl, rfl⟩

/-- A reply that is built is honest. -/
theorem reply_honest (h : ReplySetting P node taskId sender localTime now nonceRaw)
    (hsigns : Signs P node.identity.publicBytes node.identity.sign) {answer : PyStr} {message : Bytes}
    (hmessage : delegationSigningBytes P (replyFields P node taskId sender now nonceRaw (keptAnswer answer)) =
      .ok message) :
    Honest P node.identity (replyFields P node taskId sender now nonceRaw (keptAnswer answer)) message := by
  obtain ⟨n, hn, hkept⟩ := keptAnswer_bytes answer
  have hchars : (keptAnswer answer).length ≤ n := hkept.length ▸ length_le_utf8Len _
  have hsmall : maxRelayAnswerBytes ≤ maxRelayTextChars ∧ maxRelayAnswerBytes ≤ maxRelayTextBytes := by decide
  exact {
    signs := hsigns
    sender := rfl
    message := hmessage
    recipient := h.sender
    taskId_present := h.taskId_present
    taskId_short := h.taskId_short
    taskId_printable := h.taskId_printable
    text_short := (hchars.trans hn).trans hsmall.1
    text_bytes := by
      intro encoded hencoded
      obtain ⟨kept, hbytes, hlength⟩ := hkept.encode
      obtain rfl := Except.ok.inj (hbytes.symm.trans hencoded)
      exact hlength.trans_le (hn.trans hsmall.2)
    nonce := ⟨nonceRaw, h.nonce, rfl⟩ }

theorem buildReply_signed {answer : PyStr} {reply : Dict}
    (h : buildReply P node taskId sender answer localTime now nonceRaw = .ok reply) :
    ∃ message, delegationSigningBytes P (replyFields P node taskId sender now nonceRaw (keptAnswer answer)) =
        .ok message ∧
      reply = replyOf P node taskId sender localTime now nonceRaw (keptAnswer answer) message := by
  simp only [buildReply, bind_ok, boundedAnswerText_eq, pure_ok] at h
  obtain ⟨text, htext, block, hblock, rfl⟩ := h
  obtain rfl := Except.ok.inj htext
  obtain ⟨-, message, hmessage, rfl⟩ := signDelegation_ok hblock
  exact ⟨message, hmessage, rfl⟩

end

end Rdap.Relay
