import Rdap.Identity.Keys

/-!
# The two verifiers

Each verifier runs a list of stateless checks against the clock value it reads, and only a
request that passed all of them reaches the replay cache, which reads the clock again. The
stateless part is `check...`; `verify...` is the source's function.
-/

set_option autoImplicit false

namespace Rdap.Identity
open Python Protocol Lib

/-- What is known of a presentation that passed the stateless checks. -/
structure Admitted (F : Type) where
  sender : PyStr
  fields : F
  publicKey : Bytes
  /-- The canonical bytes the signature was checked against. -/
  message : Bytes
  signatureB64 : PyStr
  signature : Bytes
  expiresAt : Int

variable (P : Platform)

/-- `str(mapping.get(key, ''))` -/
def getStr (d : Dict) (key : String) : Except PyExc PyStr := pyStr P (d.getD (lit key) (.str []))

/-- `int(mapping.get(key, 0))` -/
def getInt (d : Dict) (key : String) : Except PyExc Int := pyInt P (d.getD (lit key) (.int 0))

/-- `except (TypeError, ValueError)` -/
def typeOrValueError (kind : ExcKind) : Bool := kind.isValueError || kind = .typeError

def unknownPeer (sender : PyStr) : PyStr :=
  lit "unknown peer: " ++ if sender = [] then lit "(none)" else sender

/-- The checks on the lifetime, common to both verifiers up to their wording. -/
def checkLifetime (now issuedAt expiresAt : Int) (future order maximum expired : PyStr) :
    Except Stop Unit := do
  ensure (issuedAt ≤ now + maxFutureSkewSeconds) future
  ensure (issuedAt < expiresAt) order
  ensure (expiresAt - issuedAt ≤ maxDelegationTtlSeconds) maximum
  ensure (now < expiresAt) expired

/-- Signature, key and message as the `try` block of `verify_http_request` computes them;
the signature is checked last. -/
def httpSignature (pinned : PyStr) (fields : HttpRequestFields) (signatureB64 : PyStr) :
    Except PyExc (Bytes × Bytes × Bytes) := do
  let signature ← b64decode signatureB64
  let publicKey ← validateAddressPublicKey P fields.sender pinned
  let message ← httpRequestSigningBytes P fields
  return (signature, publicKey, message)

def checkHttpRequest (authorization : Dict) (method target : PyStr) (body : Bytes)
    (trustedPeers : Peers) (expectedRecipient : PyStr) (revoked : List PyStr) (now : Int) :
    Except Stop (Admitted HttpRequestFields) := do
  let sender ← raising (getStr P authorization "address")
  match trustedPeers.get? sender with
  | none => .error (.rejected (unknownPeer sender))
  | some pinned =>
    ensure (sender ∉ revoked) (lit "revoked peer: " ++ sender)
    let recipient ← raising (getStr P authorization "recipient")
    ensure (recipient = expectedRecipient) (lit "HTTP authorization recipient mismatch")
    let context ← raising (getStr P authorization "context")
    ensure (context = httpSigningContext) (lit "bad HTTP signing context")
    let algorithm ← raising (getStr P authorization "algorithm")
    ensure (P.lower algorithm = lit "ed25519") (lit "unsupported HTTP signature algorithm")
    let badBounds := fun _ => lit "bad HTTP authorization time bounds"
    let issuedAt ← orReject typeOrValueError badBounds (getInt P authorization "issued_at")
    let expiresAt ← orReject typeOrValueError badBounds (getInt P authorization "expires_at")
    checkLifetime now issuedAt expiresAt
      (lit "HTTP authorization issued too far in the future")
      (lit "invalid HTTP authorization expiry")
      (lit "HTTP authorization lifetime exceeds maximum")
      (lit "HTTP authorization expired")
    let nonce ← raising (getStr P authorization "nonce")
    let nonceRaw ← orReject ExcKind.isValueError (fun _ => lit "bad HTTP authorization nonce")
      (fromhex nonce)
    ensure (nonceRaw.length = nonceBytes) (lit "bad HTTP authorization nonce")
    let signatureB64 ← raising (getStr P authorization "signature")
    let fields : HttpRequestFields :=
      { sender, recipient := expectedRecipient, method, target, issuedAt, expiresAt, body, nonce }
    let signed ← orReject typeOrValueError (fun _ => lit "HTTP signature invalid")
      (httpSignature P pinned fields signatureB64)
    ensure (P.ed25519Verify signed.2.1 signed.1 signed.2.2 = true) (lit "HTTP signature invalid")
    return { sender, fields, publicKey := signed.2.1, message := signed.2.2, signatureB64,
             signature := signed.1, expiresAt }

/-- `verify_http_request`: `now` is the verifier's clock value, `later` the cache's. -/
def verifyHttpRequest (authorization : Dict) (method target : PyStr) (body : Bytes)
    (trustedPeers : Peers) (expectedRecipient : PyStr) (revoked : List PyStr) (cache : ReplayCache)
    (faults : Faults) (now later : Int) (db : Ledger) :
    Except PyExc (Bool × PyStr × PyStr) × Ledger :=
  match checkHttpRequest P authorization method target body trustedPeers expectedRecipient
      revoked now with
  | .error (.rejected reason) => (.ok (false, reason, []), db)
  | .error (.raised e) => (.error e, db)
  | .ok a =>
    match firstTime P cache faults later a.signatureB64 (some a.expiresAt) db with
    | (.ok true, db') => (.ok (true, lit "HTTP authorization verified", a.sender), db')
    | (.ok false, db') => (.ok (false, lit "HTTP authorization replay", []), db')
    | (.error e, db') => (.error e, db')

/-- The values a caller of `verify_delegation` expects. -/
structure Expected where
  recipient : PyStr
  taskId : PyStr
  kind : PyStr

/-- The checks behind `if not meta`. -/
def checkDelegation (metadata : Dict) (taskText : PyStr) (trustedPeers : Peers)
    (revoked : List PyStr) (expected : Expected) (now : Int) :
    Except Stop (Admitted DelegationFields) := do
  let sender ← raising (getStr P metadata "sender")
  match trustedPeers.get? sender with
  | none => .error (.rejected (unknownPeer sender))
  | some pinned =>
    ensure (sender ∉ revoked) (lit "revoked peer: " ++ sender)
    let context ← raising (getStr P metadata "context")
    ensure (context = signingContext) (lit "bad signing context")
    ensure (expected.recipient ≠ [] ∧ expected.taskId ≠ [])
      (lit "verifier missing recipient or task id")
    let recipient ← raising (getStr P metadata "recipient")
    let taskId ← raising (getStr P metadata "task_id")
    let kind ← raising (getStr P metadata "kind")
    ensure (recipient = expected.recipient) (lit "delegation recipient mismatch")
    ensure (taskId = expected.taskId) (lit "delegation task id mismatch")
    ensure (kind = expected.kind) (lit "delegation kind mismatch")
    let badBounds := fun _ => lit "bad delegation time bounds"
    let issuedAt ← orReject typeOrValueError badBounds (getInt P metadata "issued_at")
    let expiresAt ← orReject typeOrValueError badBounds (getInt P metadata "expires_at")
    checkLifetime now issuedAt expiresAt
      (lit "delegation issued too far in the future")
      (lit "invalid delegation expiry")
      (lit "delegation lifetime exceeds maximum")
      (lit "delegation expired")
    let nonce ← raising (getStr P metadata "nonce")
    ensure (nonce.length = nonceBytes * 2) (lit "missing or malformed nonce")
    let _ ← orReject ExcKind.isValueError (fun _ => lit "malformed nonce") (fromhex nonce)
    let undecodable := fun _ => lit "undecodable signature"
    let signatureB64 ← orReject (fun _ => true) undecodable (getStr P metadata "signature")
    let signature ← orReject (fun _ => true) undecodable (b64decode signatureB64)
    let publicKey ← orReject (fun _ => true)
      (fun e => lit "invalid trusted identity for " ++ sender ++ lit ": " ++ e.message)
      (validateAddressPublicKey P sender pinned)
    let fields : DelegationFields :=
      { sender, recipient, taskId, kind, issuedAt, expiresAt, text := taskText, nonce }
    -- built outside any `try`: an unencodable text raises
    let message ← raising (delegationSigningBytes P fields)
    ensure (P.ed25519Verify publicKey signature message = true) (lit "signature invalid")
    return { sender, fields, publicKey, message, signatureB64, signature, expiresAt }

def verifyDelegation (metadata : Dict) (taskText : PyStr) (trustedPeers : Peers) (required : Bool)
    (revoked : List PyStr) (cache : ReplayCache) (expected : Expected) (consumeReplay : Bool)
    (faults : Faults) (now later : Int) (db : Ledger) : Except PyExc (Bool × PyStr) × Ledger :=
  if metadata = [] then
    (.ok (!required, if required then lit "missing signature" else lit "no raven metadata"), db)
  else
    match checkDelegation P metadata taskText trustedPeers revoked expected now with
    | .error (.rejected reason) => (.ok (false, reason), db)
    | .error (.raised e) => (.error e, db)
    | .ok a =>
      if consumeReplay then
        match firstTime P cache faults later a.signatureB64 (some a.expiresAt) db with
        | (.ok true, db') => (.ok (true, lit "verified " ++ a.sender), db')
        | (.ok false, db') => (.ok (false, lit "replayed delegation"), db')
        | (.error e, db') => (.error e, db')
      else (.ok (true, lit "verified " ++ a.sender), db)

/-! ## What passing the checks means -/

/-- The bounds on a lifetime, as facts about the clock value of the check. -/
structure LifetimeOk (now issuedAt expiresAt : Int) : Prop where
  notFuture : issuedAt ≤ now + maxFutureSkewSeconds
  order : issuedAt < expiresAt
  bounded : expiresAt - issuedAt ≤ maxDelegationTtlSeconds
  live : now < expiresAt

theorem checkLifetime_ok {now issuedAt expiresAt : Int} {f o m e : PyStr} {u : Unit} :
    checkLifetime now issuedAt expiresAt f o m e = .ok u ↔ LifetimeOk now issuedAt expiresAt := by
  simp only [checkLifetime, bind_ok, ensure_ok, exists_const]
  constructor
  · rintro ⟨hf, ho, hm, he⟩
    exact ⟨hf, ho, hm, he⟩
  · rintro ⟨hf, ho, hm, he⟩
    exact ⟨hf, ho, hm, he⟩

theorem httpSignature_ok {pinned : PyStr} {fields : HttpRequestFields} {signatureB64 : PyStr}
    {s k m : Bytes} : httpSignature P pinned fields signatureB64 = .ok (s, k, m) ↔
      b64decode signatureB64 = .ok s ∧ validateAddressPublicKey P fields.sender pinned = .ok k ∧
      httpRequestSigningBytes P fields = .ok m := by
  simp only [httpSignature, bind_ok, pure_ok, Prod.mk.injEq]
  constructor
  · rintro ⟨s', hs, k', hk, m', hm, rfl, rfl, rfl⟩
    exact ⟨hs, hk, hm⟩
  · rintro ⟨hs, hk, hm⟩
    exact ⟨s, hs, k, hk, m, hm, rfl, rfl, rfl⟩

/-- Everything the stateless checks of a request establish. -/
structure HttpChecked (authorization : Dict) (method target : PyStr) (body : Bytes)
    (trustedPeers : Peers) (expectedRecipient : PyStr) (revoked : List PyStr) (now : Int)
    (a : Admitted HttpRequestFields) : Prop where
  sender : getStr P authorization "address" = .ok a.sender
  issuedAt : getInt P authorization "issued_at" = .ok a.fields.issuedAt
  expiresAt : getInt P authorization "expires_at" = .ok a.expiresAt
  nonce : getStr P authorization "nonce" = .ok a.fields.nonce
  signatureText : getStr P authorization "signature" = .ok a.signatureB64
  pinned : ∃ pin, trustedPeers.get? a.sender = some pin ∧
    validateAddressPublicKey P a.sender pin = .ok a.publicKey
  notRevoked : a.sender ∉ revoked
  fields : a.fields =
    { sender := a.sender, recipient := expectedRecipient, method, target,
      issuedAt := a.fields.issuedAt, expiresAt := a.expiresAt, body, nonce := a.fields.nonce }
  lifetime : LifetimeOk now a.fields.issuedAt a.expiresAt
  signature : b64decode a.signatureB64 = .ok a.signature
  message : httpRequestSigningBytes P a.fields = .ok a.message
  verified : P.ed25519Verify a.publicKey a.signature a.message = true

theorem checkHttpRequest_ok {authorization : Dict} {method target : PyStr} {body : Bytes}
    {trustedPeers : Peers} {expectedRecipient : PyStr} {revoked : List PyStr} {now : Int}
    {a : Admitted HttpRequestFields}
    (h : checkHttpRequest P authorization method target body trustedPeers expectedRecipient
      revoked now = .ok a) :
    HttpChecked P authorization method target body trustedPeers expectedRecipient revoked now a := by
  simp only [checkHttpRequest, bind_ok, raising_ok] at h
  obtain ⟨sender, hsender, h⟩ := h
  split at h
  · cases h
  · rename_i pin hpin
    simp only [bind_ok, raising_ok, ensure_ok, orReject_ok, checkLifetime_ok, pure_ok,
      exists_const] at h
    obtain ⟨hrev, _, _, rfl, _, _, _, _, _, _, issuedAt, hissued, expiresAt, hexpires, hlife,
      nonce, hnonce, _, _, _, signatureB64, htext, ⟨s, k, m⟩, hsig, hver, rfl⟩ := h
    obtain ⟨hs, hk, hm⟩ := (httpSignature_ok P).mp hsig
    exact ⟨hsender, hissued, hexpires, hnonce, htext, ⟨pin, hpin, hk⟩, hrev, rfl, hlife, hs, hm,
      hver⟩

/-- Everything the stateless checks of a delegation establish. -/
structure DelegationChecked (metadata : Dict) (taskText : PyStr) (trustedPeers : Peers)
    (revoked : List PyStr) (expected : Expected) (now : Int) (a : Admitted DelegationFields) :
    Prop where
  sender : getStr P metadata "sender" = .ok a.sender
  issuedAt : getInt P metadata "issued_at" = .ok a.fields.issuedAt
  expiresAt : getInt P metadata "expires_at" = .ok a.expiresAt
  nonce : getStr P metadata "nonce" = .ok a.fields.nonce
  signatureText : getStr P metadata "signature" = .ok a.signatureB64
  pinned : ∃ pin, trustedPeers.get? a.sender = some pin ∧
    validateAddressPublicKey P a.sender pin = .ok a.publicKey
  notRevoked : a.sender ∉ revoked
  fields : a.fields =
    { sender := a.sender, recipient := expected.recipient, taskId := expected.taskId,
      kind := expected.kind, issuedAt := a.fields.issuedAt, expiresAt := a.expiresAt,
      text := taskText, nonce := a.fields.nonce }
  lifetime : LifetimeOk now a.fields.issuedAt a.expiresAt
  signature : b64decode a.signatureB64 = .ok a.signature
  message : delegationSigningBytes P a.fields = .ok a.message
  verified : P.ed25519Verify a.publicKey a.signature a.message = true

theorem checkDelegation_ok {metadata : Dict} {taskText : PyStr} {trustedPeers : Peers}
    {revoked : List PyStr} {expected : Expected} {now : Int} {a : Admitted DelegationFields}
    (h : checkDelegation P metadata taskText trustedPeers revoked expected now = .ok a) :
    DelegationChecked P metadata taskText trustedPeers revoked expected now a := by
  simp only [checkDelegation, bind_ok, raising_ok] at h
  obtain ⟨sender, hsender, h⟩ := h
  split at h
  · cases h
  · rename_i pin hpin
    simp only [bind_ok, raising_ok, ensure_ok, orReject_ok, checkLifetime_ok, pure_ok,
      exists_const] at h
    obtain ⟨hrev, _, _, _, _, _, _, taskId, _, kind, _, rfl, rfl, rfl, issuedAt, hissued,
      expiresAt, hexpires, hlife, nonce, hnonce, _, _, _, signatureB64, htext, signature, hs,
      publicKey, hk, message, hm, hver, rfl⟩ := h
    exact ⟨hsender, hissued, hexpires, hnonce, htext, ⟨pin, hpin, hk⟩, hrev, rfl, hlife, hs, hm,
      hver⟩

/-- An accepting verifier ran the checks through and then consumed the signature. -/
theorem verifyHttpRequest_accepts {authorization : Dict} {method target : PyStr} {body : Bytes}
    {trustedPeers : Peers} {expectedRecipient : PyStr} {revoked : List PyStr} {cache : ReplayCache}
    {faults : Faults} {now later : Int} {db db' : Ledger} {reason owner : PyStr}
    (h : verifyHttpRequest P authorization method target body trustedPeers expectedRecipient
      revoked cache faults now later db = (.ok (true, reason, owner), db')) :
    ∃ a, checkHttpRequest P authorization method target body trustedPeers expectedRecipient
        revoked now = .ok a ∧ owner = a.sender ∧
      firstTime P cache faults later a.signatureB64 (some a.expiresAt) db = (.ok true, db') := by
  unfold verifyHttpRequest at h
  split at h
  · simp at h
  · simp at h
  · rename_i a ha
    split at h
    · rename_i db'' hfirst
      simp only [Prod.mk.injEq, Except.ok.injEq, true_and] at h
      obtain ⟨⟨_, rfl⟩, rfl⟩ := h
      exact ⟨a, ha, rfl, hfirst⟩
    · simp at h
    · simp at h

theorem verifyDelegation_accepts {metadata : Dict} {taskText : PyStr} {trustedPeers : Peers}
    {required : Bool} {revoked : List PyStr} {cache : ReplayCache} {expected : Expected}
    {consumeReplay : Bool} {faults : Faults} {now later : Int} {db db' : Ledger} {reason : PyStr}
    (hne : metadata ≠ [])
    (h : verifyDelegation P metadata taskText trustedPeers required revoked cache expected
      consumeReplay faults now later db = (.ok (true, reason), db')) :
    ∃ a, checkDelegation P metadata taskText trustedPeers revoked expected now = .ok a ∧
      (consumeReplay = true →
        firstTime P cache faults later a.signatureB64 (some a.expiresAt) db = (.ok true, db')) ∧
      (consumeReplay = false → db' = db) := by
  unfold verifyDelegation at h
  rw [if_neg hne] at h
  split at h
  · simp at h
  · simp at h
  · rename_i a ha
    refine ⟨a, ha, ?_⟩
    cases consumeReplay with
    | false =>
      simp only [Bool.false_eq_true, if_false, Prod.mk.injEq] at h
      exact ⟨by simp, fun _ => h.2.symm⟩
    | true =>
      simp only [if_true] at h
      split at h
      · rename_i db'' hfirst
        obtain rfl : db'' = db' := by simpa using congrArg Prod.snd h
        exact ⟨fun _ => hfirst, by simp⟩
      · simp at h
      · simp at h

/-- A call that does not return `True` leaves the durable table alone. -/
theorem verifyHttpRequest_rejects {authorization : Dict} {method target : PyStr} {body : Bytes}
    {trustedPeers : Peers} {expectedRecipient : PyStr} {revoked : List PyStr} {cache : ReplayCache}
    {faults : Faults} {now later : Int} {db db' : Ledger}
    {answer : Except PyExc (Bool × PyStr × PyStr)}
    (h : verifyHttpRequest P authorization method target body trustedPeers expectedRecipient
      revoked cache faults now later db = (answer, db'))
    (hno : ∀ reason owner, answer ≠ .ok (true, reason, owner)) : db' = db := by
  unfold verifyHttpRequest at h
  split at h
  · exact (congrArg Prod.snd h).symm
  · exact (congrArg Prod.snd h).symm
  · rename_i a _
    have hledger : (firstTime P cache faults later a.signatureB64 (some a.expiresAt) db).1 ≠
        .ok true →
      (firstTime P cache faults later a.signatureB64 (some a.expiresAt) db).2 = db :=
      firstTime_rejects P
    split at h
    · exact absurd (congrArg Prod.fst h).symm (hno _ _)
    · rename_i hfirst
      rw [hfirst] at hledger
      exact (congrArg Prod.snd h).symm.trans (hledger (by simp))
    · rename_i hfirst
      rw [hfirst] at hledger
      exact (congrArg Prod.snd h).symm.trans (hledger (by simp))

theorem verifyDelegation_rejects {metadata : Dict} {taskText : PyStr} {trustedPeers : Peers}
    {required : Bool} {revoked : List PyStr} {cache : ReplayCache} {expected : Expected}
    {consumeReplay : Bool} {faults : Faults} {now later : Int} {db db' : Ledger}
    {answer : Except PyExc (Bool × PyStr)}
    (h : verifyDelegation P metadata taskText trustedPeers required revoked cache expected
      consumeReplay faults now later db = (answer, db'))
    (hno : ∀ reason, answer ≠ .ok (true, reason)) : db' = db := by
  unfold verifyDelegation at h
  split at h
  · exact (congrArg Prod.snd h).symm
  · split at h
    · exact (congrArg Prod.snd h).symm
    · exact (congrArg Prod.snd h).symm
    · rename_i a _
      have hledger : (firstTime P cache faults later a.signatureB64 (some a.expiresAt) db).1 ≠
          .ok true →
        (firstTime P cache faults later a.signatureB64 (some a.expiresAt) db).2 = db :=
        firstTime_rejects P
      split at h
      · split at h
        · exact absurd (congrArg Prod.fst h).symm (hno _)
        · rename_i hfirst
          rw [hfirst] at hledger
          exact (congrArg Prod.snd h).symm.trans (hledger (by simp))
        · rename_i hfirst
          rw [hfirst] at hledger
          exact (congrArg Prod.snd h).symm.trans (hledger (by simp))
      · exact (congrArg Prod.snd h).symm

/-! ## A sample peer

Concrete values on which the verifiers can be evaluated: one pinned peer, one request and one
delegation it signed for this node. -/

namespace Sample

def key : Bytes := List.replicate 32 7
def nodeKey : Bytes := List.replicate 32 8

theorem nodeKey_length : nodeKey.length = 32 := List.length_replicate
def address : PyStr := Address.encode (Platform.ofTable []) key
def nodeAddress : PyStr := Address.encode (Platform.ofTable []) nodeKey
def peers : Peers := KeyedTable.empty.set address (hex key)
def httpSignature : Bytes := List.replicate 64 9
def delegationSignature : Bytes := List.replicate 64 17
def nonce : PyStr := hex (List.replicate 16 5)

def request : HttpRequestFields where
  sender := address
  recipient := nodeAddress
  method := lit "POST"
  target := lit "/"
  issuedAt := 1000
  expiresAt := 1600
  body := [123, 125]
  nonce := nonce

def delegation : DelegationFields where
  sender := address
  recipient := nodeAddress
  taskId := lit "t1"
  kind := lit "task"
  issuedAt := 1000
  expiresAt := 1600
  text := lit "hello"
  nonce := nonce

def requestBytes : Bytes :=
  (httpRequestSigningBytes (Platform.ofTable []) request).toOption.getD []

def delegationBytes : Bytes :=
  (delegationSigningBytes (Platform.ofTable []) delegation).toOption.getD []

def platform : Platform :=
  Platform.ofTable [(key, httpSignature, requestBytes), (key, delegationSignature, delegationBytes)]

/-- The authorization block of the request, with a given spelling of the signature. -/
def authorization (signatureB64 : PyStr) : Dict :=
  [(lit "address", .str address), (lit "recipient", .str nodeAddress),
    (lit "issued_at", .str (lit "1000")), (lit "expires_at", .str (lit "1600")),
    (lit "nonce", .str nonce), (lit "algorithm", .str (lit "ed25519")),
    (lit "context", .str httpSigningContext), (lit "signature", .str signatureB64)]

def metadata (signatureB64 : PyStr) : Dict :=
  [(lit "sender", .str address), (lit "recipient", .str nodeAddress),
    (lit "task_id", .str (lit "t1")), (lit "kind", .str (lit "task")),
    (lit "issued_at", .int 1000), (lit "expires_at", .int 1600), (lit "nonce", .str nonce),
    (lit "algorithm", .str (lit "ed25519")), (lit "context", .str signingContext),
    (lit "signature", .str signatureB64)]

def expected : Expected := ⟨nodeAddress, lit "t1", lit "task"⟩

def cache : ReplayCache := {}

theorem request_accepted : ∃ db', verifyHttpRequest platform
    (authorization (b64encode httpSignature)) request.method request.target request.body peers
    nodeAddress [] cache noFaults 1100 1100 .empty =
      (.ok (true, lit "HTTP authorization verified", address), db') :=
  exists_of_fst (by decide +kernel)

theorem delegation_accepted : ∃ db', verifyDelegation platform
    (metadata (b64encode delegationSignature)) delegation.text peers true [] cache expected true
    noFaults 1100 1100 .empty = (.ok (true, lit "verified " ++ address), db') :=
  exists_of_fst (by decide +kernel)

end Sample

end Rdap.Identity
