import Rdap.Identity.Verify

/-!
# What a pinned signer can present

The other direction of the verifiers: a request signed with a pinned key that nothing speaks
against passes the stateless checks, under the encoder's own spelling of the signature.
-/

set_option autoImplicit false

namespace Rdap.Identity
open Python Protocol Lib

variable {P : Platform}

/-- A key pair in working order. -/
structure Signs (P : Platform) (publicKey : Bytes) (sign : Bytes → Bytes) : Prop where
  length : publicKey.length = 32
  verifies : ∀ msg, P.ed25519Verify publicKey (sign msg) msg = true

/-- The block has the fields of a request under their keys, in whatever form. -/
structure PresentsRequest (P : Platform) (d : Dict) (f : HttpRequestFields) (sig : PyStr) :
    Prop where
  sender : getStr P d "address" = .ok f.sender
  recipient : getStr P d "recipient" = .ok f.recipient
  issuedAt : getInt P d "issued_at" = .ok f.issuedAt
  expiresAt : getInt P d "expires_at" = .ok f.expiresAt
  nonce : getStr P d "nonce" = .ok f.nonce
  algorithm : getStr P d "algorithm" = .ok (lit "ed25519")
  context : getStr P d "context" = .ok httpSigningContext
  signature : getStr P d "signature" = .ok sig

structure PresentsDelegation (P : Platform) (d : Dict) (f : DelegationFields) (sig : PyStr) :
    Prop where
  sender : getStr P d "sender" = .ok f.sender
  recipient : getStr P d "recipient" = .ok f.recipient
  taskId : getStr P d "task_id" = .ok f.taskId
  kind : getStr P d "kind" = .ok f.kind
  issuedAt : getInt P d "issued_at" = .ok f.issuedAt
  expiresAt : getInt P d "expires_at" = .ok f.expiresAt
  nonce : getStr P d "nonce" = .ok f.nonce
  context : getStr P d "context" = .ok signingContext
  signature : getStr P d "signature" = .ok sig

theorem httpAuthorization_presents (f : HttpRequestFields) (sig : PyStr) :
    PresentsRequest P (httpAuthorization f sig) f sig :=
  ⟨rfl, rfl, rfl, rfl, rfl, rfl, rfl, rfl⟩

theorem delegationMetadata_presents (f : DelegationFields) (sig : PyStr) :
    PresentsDelegation P (delegationMetadata f sig) f sig :=
  ⟨rfl, rfl, rfl, rfl, rfl, rfl, rfl, rfl, rfl⟩

theorem lower_ed25519 : P.lower (lit "ed25519") = lit "ed25519" := by
  rw [P.lower_ascii (by decide)]
  decide

section
variable {publicKey : Bytes} {sign : Bytes → Bytes} {message raw : Bytes} {pinned : PyStr}
  {d : Dict} {trustedPeers : Peers} {revoked : List PyStr} {now : Int}

theorem checkHttpRequest_admits (hsigns : Signs P publicKey sign) {f : HttpRequestFields}
    (hsender : f.sender = Address.encode P publicKey)
    (hmessage : httpRequestSigningBytes P f = .ok message)
    (hblock : PresentsRequest P d f (b64encode (sign message)))
    (hnonce : fromhex f.nonce = .ok raw) (hraw : raw.length = nonceBytes)
    (hpin : trustedPeers.get? f.sender = some pinned) (hkey : fromhex pinned = .ok publicKey)
    (hrevoked : f.sender ∉ revoked) (hlife : LifetimeOk now f.issuedAt f.expiresAt) :
    checkHttpRequest P d f.method f.target f.body trustedPeers f.recipient revoked now =
      .ok
        { sender := f.sender
          fields := f
          publicKey
          message
          signatureB64 := b64encode (sign message)
          signature := sign message
          expiresAt := f.expiresAt } := by
  have hvalid : validateAddressPublicKey P f.sender pinned = .ok publicKey := by
    rw [hsender]
    exact validateAddressPublicKey_of_hex P hkey hsigns.length
  have hsigned : httpSignature P pinned f (b64encode (sign message)) =
      .ok (sign message, publicKey, message) :=
    (httpSignature_ok P).mpr ⟨b64decode_b64encode _, hvalid, hmessage⟩
  have hlifetime := checkLifetime_ok (u := ())
    (f := lit "HTTP authorization issued too far in the future")
    (o := lit "invalid HTTP authorization expiry")
    (m := lit "HTTP authorization lifetime exceeds maximum")
    (e := lit "HTTP authorization expired") |>.mpr hlife
  simp only [checkHttpRequest, hblock.sender, hblock.recipient, hblock.context, hblock.algorithm,
    hblock.issuedAt, hblock.expiresAt, hblock.nonce, hblock.signature, hpin, raising, orReject,
    ensure, hrevoked, not_false_eq_true, if_true, lower_ed25519, hlifetime, hnonce, hraw, hsigned,
    hsigns.verifies, bind, Except.bind, pure, Except.pure]

theorem checkDelegation_admits (hsigns : Signs P publicKey sign) {f : DelegationFields}
    (hsender : f.sender = Address.encode P publicKey)
    (hmessage : delegationSigningBytes P f = .ok message)
    (hblock : PresentsDelegation P d f (b64encode (sign message)))
    (hnonce : fromhex f.nonce = .ok raw) (hlength : f.nonce.length = nonceBytes * 2)
    (hrecipient : f.recipient ≠ []) (htask : f.taskId ≠ [])
    (hpin : trustedPeers.get? f.sender = some pinned) (hkey : fromhex pinned = .ok publicKey)
    (hrevoked : f.sender ∉ revoked) (hlife : LifetimeOk now f.issuedAt f.expiresAt) :
    checkDelegation P d f.text trustedPeers revoked ⟨f.recipient, f.taskId, f.kind⟩ now =
      .ok
        { sender := f.sender
          fields := f
          publicKey
          message
          signatureB64 := b64encode (sign message)
          signature := sign message
          expiresAt := f.expiresAt } := by
  have hvalid : validateAddressPublicKey P f.sender pinned = .ok publicKey := by
    rw [hsender]
    exact validateAddressPublicKey_of_hex P hkey hsigns.length
  have hlifetime := checkLifetime_ok (u := ()) (f := lit "delegation issued too far in the future")
    (o := lit "invalid delegation expiry") (m := lit "delegation lifetime exceeds maximum")
    (e := lit "delegation expired") |>.mpr hlife
  simp only [checkDelegation, hblock.sender, hblock.recipient, hblock.taskId, hblock.kind,
    hblock.context, hblock.issuedAt, hblock.expiresAt, hblock.nonce, hblock.signature, hpin,
    raising, orReject, ensure, hrevoked, not_false_eq_true, if_true, hrecipient, htask, ne_eq,
    and_self, hlifetime, hlength, hnonce, b64decode_b64encode, hvalid, hmessage, hsigns.verifies,
    bind, Except.bind, pure, Except.pure]

end

/-! ## Every signer can present something -/

/-- Bytes are defined for fields in ASCII that each fit a length prefix. -/
theorem httpRequestSigningBytes_defined {f : HttpRequestFields}
    (hascii : f.sender.all isAscii = true ∧ f.recipient.all isAscii = true ∧
      (P.upper f.method).all isAscii = true ∧ f.target.all isAscii = true)
    (hfits : f.sender.length ≤ lpMaxLen ∧ f.recipient.length ≤ lpMaxLen ∧
      (P.upper f.method).length ≤ lpMaxLen ∧ f.target.length ≤ lpMaxLen)
    {issuedAt expiresAt nonce : Bytes} (hi : encodeInt f.issuedAt = .ok issuedAt)
    (he : encodeInt f.expiresAt = .ok expiresAt) (hn : fromhex f.nonce = .ok nonce)
    (hil : issuedAt.length ≤ lpMaxLen) (hel : expiresAt.length ≤ lpMaxLen)
    (hnl : nonce.length ≤ lpMaxLen) : ∃ out, httpRequestSigningBytes P f = .ok out := by
  obtain ⟨sender, hs, hsl⟩ := encodeUtf8_of_ascii hascii.1
  obtain ⟨recipient, hr, hrl⟩ := encodeUtf8_of_ascii hascii.2.1
  obtain ⟨method, hm, hml⟩ := encodeAscii_of_ascii hascii.2.2.1
  obtain ⟨target, ht, htl⟩ := encodeAscii_of_ascii hascii.2.2.2
  have hcontext : (asciiBytes httpSigningContext).length ≤ lpMaxLen := by decide
  have hdigest : (P.sha256 f.body).length ≤ lpMaxLen := by
    rw [P.sha256_length]
    decide
  have hshort : ∀ field ∈ [asciiBytes httpSigningContext, sender, recipient, method, target,
      issuedAt, expiresAt, P.sha256 f.body, nonce], field.length ≤ lpMaxLen := by
    simp only [List.mem_cons, List.not_mem_nil, or_false, forall_eq_or_imp, forall_eq]
    omega
  exact ⟨_, by simpa only [httpRequestSigningBytes, hs, hr, hm, ht, hi, he, hn, bind,
    Except.bind] using lpConcat_of_le hshort⟩

theorem delegationSigningBytes_of_encoded {f : DelegationFields}
    {sender recipient taskId kind text issuedAt expiresAt nonce : Bytes}
    (hs : encodeUtf8 f.sender = .ok sender) (hr : encodeUtf8 f.recipient = .ok recipient)
    (ht : encodeUtf8 f.taskId = .ok taskId) (hk : encodeAscii f.kind = .ok kind)
    (hx : encodeUtf8 f.text = .ok text) (hi : encodeInt f.issuedAt = .ok issuedAt)
    (he : encodeInt f.expiresAt = .ok expiresAt) (hn : fromhex f.nonce = .ok nonce)
    (hfits : ∀ field ∈ [sender, recipient, taskId, kind, issuedAt, expiresAt, nonce],
      field.length ≤ lpMaxLen) : ∃ out, delegationSigningBytes P f = .ok out := by
  have hcontext : (asciiBytes signingContext).length ≤ lpMaxLen := by decide
  have hdigest : (P.sha256 text).length ≤ lpMaxLen := by
    rw [P.sha256_length]
    decide
  have hshort : ∀ field ∈ [asciiBytes signingContext, sender, recipient, taskId, kind, issuedAt,
      expiresAt, P.sha256 text, nonce], field.length ≤ lpMaxLen := by
    simp only [List.mem_cons, List.not_mem_nil, or_false, forall_eq_or_imp, forall_eq] at hfits ⊢
    omega
  exact ⟨_, by simpa only [delegationSigningBytes, hs, hr, ht, hk, hx, hi, he, hn, bind,
    Except.bind] using lpConcat_of_le hshort⟩

theorem delegationSigningBytes_defined {f : DelegationFields}
    (hascii : f.sender.all isAscii = true ∧ f.recipient.all isAscii = true ∧
      f.taskId.all isAscii = true ∧ f.kind.all isAscii = true ∧ f.text.all isAscii = true)
    (hfits : f.sender.length ≤ lpMaxLen ∧ f.recipient.length ≤ lpMaxLen ∧
      f.taskId.length ≤ lpMaxLen ∧ f.kind.length ≤ lpMaxLen)
    {issuedAt expiresAt nonce : Bytes} (hi : encodeInt f.issuedAt = .ok issuedAt)
    (he : encodeInt f.expiresAt = .ok expiresAt) (hn : fromhex f.nonce = .ok nonce)
    (hil : issuedAt.length ≤ lpMaxLen) (hel : expiresAt.length ≤ lpMaxLen)
    (hnl : nonce.length ≤ lpMaxLen) : ∃ out, delegationSigningBytes P f = .ok out := by
  obtain ⟨sender, hs, hsl⟩ := encodeUtf8_of_ascii hascii.1
  obtain ⟨recipient, hr, hrl⟩ := encodeUtf8_of_ascii hascii.2.1
  obtain ⟨taskId, ht, htl⟩ := encodeUtf8_of_ascii hascii.2.2.1
  obtain ⟨kind, hk, hkl⟩ := encodeAscii_of_ascii hascii.2.2.2.1
  obtain ⟨text, hx, _⟩ := encodeUtf8_of_ascii hascii.2.2.2.2
  apply delegationSigningBytes_of_encoded hs hr ht hk hx hi he hn
  simp only [List.mem_cons, List.not_mem_nil, or_false, forall_eq_or_imp, forall_eq]
  omega

/-- A minimal request of a sender. -/
def HttpRequestFields.minimal (sender : PyStr) : HttpRequestFields where
  sender := sender
  recipient := []
  method := []
  target := []
  issuedAt := 0
  expiresAt := 1
  body := []
  nonce := hex (List.replicate nonceBytes 0)

/-- A minimal delegation of a sender. -/
def DelegationFields.minimal (sender : PyStr) : DelegationFields where
  sender := sender
  recipient := lit "r"
  taskId := lit "t"
  kind := []
  issuedAt := 0
  expiresAt := 1
  text := []
  nonce := hex (List.replicate nonceBytes 0)

theorem minimal_lifetime : LifetimeOk 0 0 1 := ⟨by decide, by decide, by decide, by decide⟩

theorem admits_on_empty (cache : ReplayCache) {sig : PyStr} {raw : Bytes}
    (h : b64decode sig = .ok raw) (now expiry : Int) :
    ∃ db', firstTime P cache noFaults now sig (some expiry) .empty = (.ok true, db') := by
  obtain ⟨key, hkey⟩ := signatureHash_of_decoded (P := P) h
  refine ⟨_, firstTime_admits P expiry hkey ?_ ?_⟩
  · rintro ⟨e, hrow, _⟩
    simp at hrow
  · exact cache.bounds_positive

theorem encodeInt_zero : encodeInt 0 = .ok (asciiBytes (lit "0")) := by decide

theorem encodeInt_one : encodeInt 1 = .ok (asciiBytes (lit "1")) := by decide

theorem minimal_http_bytes {sender : PyStr} (hascii : sender.all isAscii = true)
    (hlen : sender.length ≤ lpMaxLen) :
    ∃ out, httpRequestSigningBytes P (.minimal sender) = .ok out := by
  have hupper : P.upper [] = [] := P.upper_ascii (by decide)
  have hmethod : (P.upper (HttpRequestFields.minimal sender).method) = [] := hupper
  exact httpRequestSigningBytes_defined ⟨hascii, rfl, by rw [hmethod]; rfl, rfl⟩
    ⟨hlen, Nat.zero_le _, by rw [hmethod]; exact Nat.zero_le _, Nat.zero_le _⟩
    encodeInt_zero encodeInt_one (fromhex_hex _) (by decide) (by decide) (by decide)

theorem minimal_delegation_bytes {sender : PyStr} (hascii : sender.all isAscii = true)
    (hlen : sender.length ≤ lpMaxLen) :
    ∃ out, delegationSigningBytes P (.minimal sender) = .ok out := by
  have hletters : (lit "r").all isAscii = true ∧ (lit "t").all isAscii = true := by decide
  have hlengths : (lit "r").length ≤ lpMaxLen ∧ (lit "t").length ≤ lpMaxLen := by decide
  exact delegationSigningBytes_defined ⟨hascii, hletters.1, hletters.2, rfl, rfl⟩
    ⟨hlen, hlengths.1, hlengths.2, Nat.zero_le _⟩
    encodeInt_zero encodeInt_one (fromhex_hex _) (by decide) (by decide) (by decide)

/-- A pinned signer that is not on the list gets some request past the HTTP verifier. -/
theorem http_signer_accepted {publicKey : Bytes} {sign : Bytes → Bytes}
    (hsigns : Signs P publicKey sign) {trustedPeers : Peers}
    (hpin : trustedPeers.get? (Address.encode P publicKey) = some (hex publicKey))
    {revoked : List PyStr} (hrevoked : Address.encode P publicKey ∉ revoked) (cache : ReplayCache) :
    ∃ sig, (verifyHttpRequest P
      (httpAuthorization (.minimal (Address.encode P publicKey)) sig) [] [] [] trustedPeers []
      revoked cache noFaults 0 0 .empty).1 =
        .ok (true, lit "HTTP authorization verified", Address.encode P publicKey) := by
  have hlen := Address.encode_length P publicKey
  obtain ⟨message, hmessage⟩ := minimal_http_bytes (P := P) (Address.encode_ascii P publicKey)
    (by unfold lpMaxLen; omega)
  obtain ⟨db', hfirst⟩ := admits_on_empty (P := P) cache (b64decode_b64encode (sign message)) 0 1
  have hcheck := checkHttpRequest_admits hsigns rfl hmessage (httpAuthorization_presents _ _)
    (fromhex_hex _) (by decide) hpin (fromhex_hex _) hrevoked minimal_lifetime
  refine ⟨b64encode (sign message), ?_⟩
  simp only [HttpRequestFields.minimal] at hcheck hfirst ⊢
  simp only [verifyHttpRequest, hcheck, hfirst]

theorem delegation_signer_accepted {publicKey : Bytes} {sign : Bytes → Bytes}
    (hsigns : Signs P publicKey sign) {trustedPeers : Peers}
    (hpin : trustedPeers.get? (Address.encode P publicKey) = some (hex publicKey))
    {revoked : List PyStr} (hrevoked : Address.encode P publicKey ∉ revoked) (cache : ReplayCache) :
    ∃ sig, (verifyDelegation P
      (delegationMetadata (.minimal (Address.encode P publicKey)) sig) [] trustedPeers true
      revoked cache ⟨lit "r", lit "t", []⟩ true noFaults 0 0 .empty).1 =
        .ok (true, lit "verified " ++ Address.encode P publicKey) := by
  have hlen := Address.encode_length P publicKey
  obtain ⟨message, hmessage⟩ := minimal_delegation_bytes (P := P) (Address.encode_ascii P publicKey)
    (by unfold lpMaxLen; omega)
  obtain ⟨db', hfirst⟩ := admits_on_empty (P := P) cache (b64decode_b64encode (sign message)) 0 1
  have hnonce : (hex (List.replicate nonceBytes 0)).length = nonceBytes * 2 := by decide
  have hletters : lit "r" ≠ [] ∧ lit "t" ≠ [] := by decide
  have hcheck := checkDelegation_admits hsigns rfl hmessage (delegationMetadata_presents _ _)
    (fromhex_hex _) hnonce hletters.1 hletters.2 hpin (fromhex_hex _) hrevoked minimal_lifetime
  have hne : delegationMetadata (.minimal (Address.encode P publicKey)) (b64encode (sign message)) ≠
      [] := by simp [delegationMetadata]
  refine ⟨b64encode (sign message), ?_⟩
  simp only [verifyDelegation, hne, if_false, if_true]
  simp only [DelegationFields.minimal] at hcheck hfirst ⊢
  simp only [hcheck, hfirst]

namespace Sample

def signature (publicKey message : Bytes) : Bytes :=
  (Platform.ofTable []).sha256 message ++ (Platform.ofTable []).sha256 (message ++ publicKey)

/-- A platform on which every key signs, with a digest for a signature. -/
def signingPlatform : Platform :=
  { Platform.ofTable [] with
    ed25519Verify := fun pk sig msg => sig == signature pk msg
    ed25519_signature_length := by
      intro pk sig msg h
      rw [beq_iff_eq.mp h]
      simp only [signature, List.length_append, Platform.sha256_length] }

theorem signs : Signs signingPlatform key (signature key) :=
  ⟨by decide, fun _ => beq_self_eq_true _⟩

theorem key_length : key.length = 32 := List.length_replicate

/-- The sample peer with its key. -/
def signer : RavenIdentity := ⟨key, key_length, signature key⟩

end Sample

end Rdap.Identity
