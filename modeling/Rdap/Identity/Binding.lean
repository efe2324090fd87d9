import Rdap.Identity.Verify

/-!
# What a signature binds

Signed bytes determine the signed fields, in either domain, and the domains do not meet.
With an unforgeable signature scheme the fields of whatever a verifier accepts are those
of a signing act of the sender for the same purpose.
-/

set_option autoImplicit false

namespace Rdap.Identity
open Python Protocol Lib

/-- The uses a node makes of its private key. The last is the detached JWS on its agent
card, whose signing input is base64url text. -/
inductive SigningAct where
  | httpRequest (fields : HttpRequestFields)
  | delegation (fields : DelegationFields)
  | agentCard (signingInput : Bytes)

variable (P : Platform)

def SigningAct.bytes : SigningAct → Except PyExc Bytes
  | .httpRequest f => httpRequestSigningBytes P f
  | .delegation f => delegationSigningBytes P f
  | .agentCard input => .ok input

/-- No one but the holder of the key makes signatures that verify under it. -/
def Unforgeable (history : Bytes → SigningAct → Prop) (publicKey : Bytes) : Prop :=
  ∀ sig msg, P.ed25519Verify publicKey sig msg = true →
    ∃ act, history publicKey act ∧ act.bytes P = .ok msg

/-- Text does not start with a zero byte. -/
def CardsAreText (history : Bytes → SigningAct → Prop) : Prop :=
  ∀ pk input, history pk (.agentCard input) → input.head? ≠ some 0

variable {P}

theorem lpConcat_head {first out : Bytes} {rest : List Bytes} (hlen : first.length < 256)
    (h : lpConcat (first :: rest) = .ok out) : out.head? = some 0 := by
  obtain ⟨_, rfl⟩ := lpConcat_ok h
  have hdiv : first.length / 256 = 0 := by omega
  simp [frame, bigEndian, hdiv]

theorem httpRequestSigningBytes_head {f : HttpRequestFields} {out : Bytes}
    (h : httpRequestSigningBytes P f = .ok out) : out.head? = some 0 := by
  obtain ⟨_, _, _, _, _, _, _, _, _, _, _, _, _, _, hout⟩ := httpRequestSigningBytes_ok P h
  exact lpConcat_head (by decide) hout

theorem delegationSigningBytes_head {f : DelegationFields} {out : Bytes}
    (h : delegationSigningBytes P f = .ok out) : out.head? = some 0 := by
  obtain ⟨_, _, _, _, _, _, _, _, _, _, _, _, _, _, _, _, hout⟩ := delegationSigningBytes_ok P h
  exact lpConcat_head (by decide) hout

/-- Of all acts in the history only a request signature has a request's bytes. -/
theorem signed_httpRequest {history : Bytes → SigningAct → Prop} {pk sig : Bytes}
    {f : HttpRequestFields} {msg : Bytes} (hcards : CardsAreText history)
    (hunf : Unforgeable P history pk) (hmsg : httpRequestSigningBytes P f = .ok msg)
    (hver : P.ed25519Verify pk sig msg = true) :
    ∃ g, history pk (.httpRequest g) ∧ f.Same P g := by
  obtain ⟨act, hact, hbytes⟩ := hunf sig msg hver
  cases act with
  | httpRequest g => exact ⟨g, hact, httpRequestSigningBytes_same P hmsg hbytes⟩
  | delegation g => exact (signingBytes_disjoint P hmsg hbytes).elim
  | agentCard input =>
    obtain rfl : input = msg := by simpa [SigningAct.bytes] using hbytes
    exact absurd (httpRequestSigningBytes_head hmsg) (hcards pk _ hact)

theorem signed_delegation {history : Bytes → SigningAct → Prop} {pk sig : Bytes}
    {f : DelegationFields} {msg : Bytes} (hcards : CardsAreText history)
    (hunf : Unforgeable P history pk) (hmsg : delegationSigningBytes P f = .ok msg)
    (hver : P.ed25519Verify pk sig msg = true) :
    ∃ g, history pk (.delegation g) ∧ f.Same P g := by
  obtain ⟨act, hact, hbytes⟩ := hunf sig msg hver
  cases act with
  | delegation g => exact ⟨g, hact, delegationSigningBytes_same P hmsg hbytes⟩
  | httpRequest g => exact (signingBytes_disjoint P hbytes hmsg).elim
  | agentCard input =>
    obtain rfl : input = msg := by simpa [SigningAct.bytes] using hbytes
    exact absurd (delegationSigningBytes_head hmsg) (hcards pk _ hact)

/-- The key a policy pins for an address. -/
def PinnedKey (P : Platform) (trustedPeers : Peers) (address : PyStr) (publicKey : Bytes) : Prop :=
  ∃ pin, trustedPeers.get? address = some pin ∧
    validateAddressPublicKey P address pin = .ok publicKey

theorem PinnedKey.unique {trustedPeers : Peers} {address : PyStr} {k l : Bytes}
    (hk : PinnedKey P trustedPeers address k) (hl : PinnedKey P trustedPeers address l) :
    k = l := by
  obtain ⟨pin, hpin, hk⟩ := hk
  obtain ⟨pin', hpin', hl⟩ := hl
  obtain rfl : pin = pin' := by simpa [hpin] using hpin'
  exact Except.ok.inj (hk.symm.trans hl)

/-- Whatever `verify_http_request` accepts was signed by its owner as an HTTP request with
the same method, target, body, recipient, times and nonce. -/
theorem accepted_request_was_signed {history : Bytes → SigningAct → Prop}
    (hcards : CardsAreText history) {authorization : Dict} {method target : PyStr} {body : Bytes}
    {trustedPeers : Peers} {recipient : PyStr} {revoked : List PyStr} {cache : ReplayCache}
    {faults : Faults} {now later : Int} {db db' : Ledger} {reason owner : PyStr}
    (h : verifyHttpRequest P authorization method target body trustedPeers recipient revoked cache
      faults now later db = (.ok (true, reason, owner), db'))
    {publicKey : Bytes} (hkey : PinnedKey P trustedPeers owner publicKey)
    (hunf : Unforgeable P history publicKey) :
    ∃ issuedAt expiresAt nonce signed, getInt P authorization "issued_at" = .ok issuedAt ∧
      getInt P authorization "expires_at" = .ok expiresAt ∧
      getStr P authorization "nonce" = .ok nonce ∧ history publicKey (.httpRequest signed) ∧
      HttpRequestFields.Same P
        ⟨owner, recipient, method, target, issuedAt, expiresAt, body, nonce⟩ signed := by
  obtain ⟨a, ha, rfl, _⟩ := verifyHttpRequest_accepts P h
  have hc := checkHttpRequest_ok P ha
  obtain rfl := hkey.unique hc.pinned
  obtain ⟨g, hact, hsame⟩ := signed_httpRequest hcards hunf hc.message hc.verified
  rw [hc.fields] at hsame
  exact ⟨_, _, _, g, hc.issuedAt, hc.expiresAt, hc.nonce, hact, hsame⟩

/-- The same for `verify_delegation`, in either replay mode. -/
theorem accepted_delegation_was_signed {history : Bytes → SigningAct → Prop}
    (hcards : CardsAreText history) {metadata : Dict} {taskText : PyStr} {trustedPeers : Peers}
    {required : Bool} {revoked : List PyStr} {cache : ReplayCache} {expected : Expected}
    {consumeReplay : Bool} {faults : Faults} {now later : Int} {db db' : Ledger} {reason : PyStr}
    (hne : metadata ≠ [])
    (h : verifyDelegation P metadata taskText trustedPeers required revoked cache expected
      consumeReplay faults now later db = (.ok (true, reason), db'))
    {sender : PyStr} (hsender : getStr P metadata "sender" = .ok sender) {publicKey : Bytes}
    (hkey : PinnedKey P trustedPeers sender publicKey) (hunf : Unforgeable P history publicKey) :
    ∃ issuedAt expiresAt nonce signed, getInt P metadata "issued_at" = .ok issuedAt ∧
      getInt P metadata "expires_at" = .ok expiresAt ∧ getStr P metadata "nonce" = .ok nonce ∧
      history publicKey (.delegation signed) ∧
      DelegationFields.Same P
        ⟨sender, expected.recipient, expected.taskId, expected.kind, issuedAt, expiresAt,
          taskText, nonce⟩ signed := by
  obtain ⟨a, ha, _⟩ := verifyDelegation_accepts P hne h
  have hc := checkDelegation_ok P ha
  obtain rfl : sender = a.sender := Except.ok.inj (hsender.symm.trans hc.sender)
  obtain rfl := hkey.unique hc.pinned
  obtain ⟨g, hact, hsame⟩ := signed_delegation hcards hunf hc.message hc.verified
  rw [hc.fields] at hsame
  exact ⟨_, _, _, g, hc.issuedAt, hc.expiresAt, hc.nonce, hact, hsame⟩

/-- Signed-context binding and domain separation: injectivity of both byte formats up to the
stated re-encodings, disjointness of their outputs, and what follows for accepted traffic. -/
theorem signed_context_binding (P : Platform) (history : Bytes → SigningAct → Prop)
    (hcards : CardsAreText history) :
    (∀ a b out, httpRequestSigningBytes P a = .ok out →
      (httpRequestSigningBytes P b = .ok out ↔ a.Same P b)) ∧
    (∀ a b out, delegationSigningBytes P a = .ok out →
      (delegationSigningBytes P b = .ok out ↔ a.Same P b)) ∧
    (∀ a b out, httpRequestSigningBytes P a = .ok out → delegationSigningBytes P b ≠ .ok out) ∧
    (∀ authorization method target body trustedPeers recipient revoked cache faults now later db
        db' reason owner publicKey,
      verifyHttpRequest P authorization method target body trustedPeers recipient revoked cache
        faults now later db = (.ok (true, reason, owner), db') →
      PinnedKey P trustedPeers owner publicKey → Unforgeable P history publicKey →
      ∃ issuedAt expiresAt nonce signed, getInt P authorization "issued_at" = .ok issuedAt ∧
        getInt P authorization "expires_at" = .ok expiresAt ∧
        getStr P authorization "nonce" = .ok nonce ∧ history publicKey (.httpRequest signed) ∧
        HttpRequestFields.Same P
          ⟨owner, recipient, method, target, issuedAt, expiresAt, body, nonce⟩ signed) ∧
    (∀ metadata taskText trustedPeers required revoked cache expected consumeReplay faults now
        later db db' reason sender publicKey, metadata ≠ [] →
      verifyDelegation P metadata taskText trustedPeers required revoked cache expected
        consumeReplay faults now later db = (.ok (true, reason), db') →
      getStr P metadata "sender" = .ok sender →
      PinnedKey P trustedPeers sender publicKey → Unforgeable P history publicKey →
      ∃ issuedAt expiresAt nonce signed, getInt P metadata "issued_at" = .ok issuedAt ∧
        getInt P metadata "expires_at" = .ok expiresAt ∧
        getStr P metadata "nonce" = .ok nonce ∧ history publicKey (.delegation signed) ∧
        DelegationFields.Same P
          ⟨sender, expected.recipient, expected.taskId, expected.kind, issuedAt, expiresAt,
            taskText, nonce⟩ signed) := by
  refine ⟨?_, ?_, ?_, ?_, ?_⟩
  · intro a b out ha
    exact ⟨fun hb => httpRequestSigningBytes_same P ha hb, fun h => h.signingBytes_eq P ▸ ha⟩
  · intro a b out ha
    exact ⟨fun hb => delegationSigningBytes_same P ha hb, fun h => h.signingBytes_eq P ha⟩
  · intro a b out ha hb
    exact signingBytes_disjoint P ha hb
  · intro _ _ _ _ _ _ _ _ _ _ _ _ _ _ _ _ h hkey hunf
    exact accepted_request_was_signed hcards h hkey hunf
  · intro _ _ _ _ _ _ _ _ _ _ _ _ _ _ _ _ hne h hsender hkey hunf
    exact accepted_delegation_was_signed hcards hne h hsender hkey hunf

/-- The signing acts of the sample peer. -/
def Sample.history (publicKey : Bytes) (act : SigningAct) : Prop :=
  publicKey = Sample.key ∧ (act = .httpRequest Sample.request ∨ act = .delegation Sample.delegation)

theorem Sample.unforgeable : Unforgeable Sample.platform Sample.history Sample.key := by
  intro sig msg hver
  have hlisted : (Sample.key, sig, msg) ∈
      [(Sample.key, Sample.httpSignature, Sample.requestBytes),
        (Sample.key, Sample.delegationSignature, Sample.delegationBytes)] := by
    simp only [Sample.platform, Platform.ofTable, Bool.and_eq_true] at hver
    simpa using hver.1
  have hrequest : httpRequestSigningBytes Sample.platform Sample.request =
      .ok Sample.requestBytes := by decide +kernel
  have hdelegation : delegationSigningBytes Sample.platform Sample.delegation =
      .ok Sample.delegationBytes := by decide +kernel
  simp only [List.mem_cons, List.not_mem_nil, or_false, Prod.mk.injEq, true_and] at hlisted
  rcases hlisted with ⟨_, hmsg⟩ | ⟨_, hmsg⟩
  · refine ⟨.httpRequest Sample.request, ⟨rfl, Or.inl rfl⟩, ?_⟩
    rw [hmsg]
    exact hrequest
  · refine ⟨.delegation Sample.delegation, ⟨rfl, Or.inr rfl⟩, ?_⟩
    rw [hmsg]
    exact hdelegation

theorem Sample.cardsAreText : CardsAreText Sample.history := by
  rintro pk input ⟨_, h | h⟩ <;> cases h

theorem Sample.pinnedKey : PinnedKey Sample.platform Sample.peers Sample.address Sample.key := by
  refine ⟨hex Sample.key, ?_, ?_⟩
  · exact KeyedTable.get?_set_self _ _ _
  · decide +kernel

theorem signed_context_binding_sample :
    (∃ signed, Sample.history Sample.key (.httpRequest signed)) ∧
    (∃ signed, Sample.history Sample.key (.delegation signed)) := by
  obtain ⟨_, _, _, hrequest, hdelegation⟩ :=
    signed_context_binding Sample.platform Sample.history Sample.cardsAreText
  obtain ⟨db, hrun⟩ := Sample.request_accepted
  obtain ⟨db', hrun'⟩ := Sample.delegation_accepted
  have hsender : getStr Sample.platform (Sample.metadata (b64encode Sample.delegationSignature))
      "sender" = .ok Sample.address := by decide +kernel
  constructor
  · obtain ⟨_, _, _, signed, _, _, _, hact, _⟩ := hrequest _ _ _ _ _ _ _ _ _ _ _ _ _ _ _ _ hrun
      Sample.pinnedKey Sample.unforgeable
    exact ⟨signed, hact⟩
  · obtain ⟨_, _, _, signed, _, _, _, hact, _⟩ := hdelegation _ _ _ _ _ _ _ _ _ _ _ _ _ _ _ _
      (by simp [Sample.metadata]) hrun' hsender Sample.pinnedKey Sample.unforgeable
    exact ⟨signed, hact⟩

end Rdap.Identity
