import Rdap.Protocol.Address
import Rdap.Protocol.Canon
import Rdap.Python.Control

/-!
# Canonical signed bytes

A request and a delegation are each signed over nine length-prefixed fields, the first a
context string of its kind. Equal signed bytes therefore come from equal fields, and no
request is ever signed under the bytes of a delegation.
-/

set_option autoImplicit false

namespace Rdap.Identity
open Python Protocol Lib

def signingContext : PyStr := lit "raven.a2a.delegation.v2"
def httpSigningContext : PyStr := lit "raven.a2a.http-request.v1"
def nonceBytes : Nat := 16
def defaultDelegationTtlSeconds : Int := 10 * 60

/-- A `b'...'` literal. -/
def asciiBytes (s : PyStr) : Bytes := s.map fun c => UInt8.ofNat c.val

/-- The arguments of `http_request_signing_bytes`. -/
structure HttpRequestFields where
  sender : PyStr
  recipient : PyStr
  method : PyStr
  target : PyStr
  issuedAt : Int
  expiresAt : Int
  body : Bytes
  nonce : PyStr

/-- The arguments of `delegation_signing_bytes`. -/
structure DelegationFields where
  sender : PyStr
  recipient : PyStr
  taskId : PyStr
  kind : PyStr
  issuedAt : Int
  expiresAt : Int
  text : PyStr
  nonce : PyStr

variable (P : Platform)

/-- `str(n).encode('ascii')` -/
def encodeInt (n : Int) : Except PyExc Bytes := do
  let s ← strInt n
  encodeAscii s

def httpRequestSigningBytes (f : HttpRequestFields) : Except PyExc Bytes := do
  let nonceRaw ← fromhex f.nonce
  let sender ← encodeUtf8 f.sender
  let recipient ← encodeUtf8 f.recipient
  let method ← encodeAscii (P.upper f.method)
  let target ← encodeAscii f.target
  let issuedAt ← encodeInt f.issuedAt
  let expiresAt ← encodeInt f.expiresAt
  lpConcat [asciiBytes httpSigningContext, sender, recipient, method, target, issuedAt, expiresAt,
    P.sha256 f.body, nonceRaw]

def delegationSigningBytes (f : DelegationFields) : Except PyExc Bytes := do
  let text ← encodeUtf8 f.text
  let nonceRaw ← fromhex f.nonce
  let sender ← encodeUtf8 f.sender
  let recipient ← encodeUtf8 f.recipient
  let taskId ← encodeUtf8 f.taskId
  let kind ← encodeAscii f.kind
  let issuedAt ← encodeInt f.issuedAt
  let expiresAt ← encodeInt f.expiresAt
  lpConcat [asciiBytes signingContext, sender, recipient, taskId, kind, issuedAt, expiresAt,
    P.sha256 text, nonceRaw]

/-! ## What the bytes determine -/

/-- Equal in everything a request signature covers: the method up to upper-casing, the body
up to its digest, the nonce up to its bytes. -/
structure HttpRequestFields.Same (a b : HttpRequestFields) : Prop where
  sender : a.sender = b.sender
  recipient : a.recipient = b.recipient
  method : P.upper a.method = P.upper b.method
  target : a.target = b.target
  issuedAt : a.issuedAt = b.issuedAt
  expiresAt : a.expiresAt = b.expiresAt
  body : P.sha256 a.body = P.sha256 b.body
  nonce : fromhex a.nonce = fromhex b.nonce

/-- Digest of the UTF-8 text, as it enters the signed bytes. -/
def textDigest (text : PyStr) : Except PyExc Bytes := (encodeUtf8 text).map P.sha256

structure DelegationFields.Same (a b : DelegationFields) : Prop where
  sender : a.sender = b.sender
  recipient : a.recipient = b.recipient
  taskId : a.taskId = b.taskId
  kind : a.kind = b.kind
  issuedAt : a.issuedAt = b.issuedAt
  expiresAt : a.expiresAt = b.expiresAt
  text : textDigest P a.text = textDigest P b.text
  nonce : fromhex a.nonce = fromhex b.nonce

theorem encodeInt_injective {n m : Int} {b : Bytes} (hn : encodeInt n = .ok b)
    (hm : encodeInt m = .ok b) : n = m := by
  obtain ⟨s, hs, hsb⟩ := bind_ok.mp hn
  obtain ⟨t, ht, htb⟩ := bind_ok.mp hm
  have hst := encodeAscii_injective hsb htb
  rw [strInt_ok hs, strInt_ok ht] at hst
  exact intDecimal_injective hst

/-- The nine fields behind the signed bytes of a request. -/
theorem httpRequestSigningBytes_ok {f : HttpRequestFields} {out : Bytes}
    (h : httpRequestSigningBytes P f = .ok out) :
    ∃ nonce sender recipient method target issuedAt expiresAt,
      fromhex f.nonce = .ok nonce ∧ encodeUtf8 f.sender = .ok sender ∧
      encodeUtf8 f.recipient = .ok recipient ∧ encodeAscii (P.upper f.method) = .ok method ∧
      encodeAscii f.target = .ok target ∧ encodeInt f.issuedAt = .ok issuedAt ∧
      encodeInt f.expiresAt = .ok expiresAt ∧
      lpConcat [asciiBytes httpSigningContext, sender, recipient, method, target, issuedAt,
        expiresAt, P.sha256 f.body, nonce] = .ok out := by
  simp only [httpRequestSigningBytes, bind_ok] at h
  obtain ⟨nonce, hn, sender, hs, recipient, hr, method, hm, target, ht, i, hi, e, he, hout⟩ := h
  exact ⟨nonce, sender, recipient, method, target, i, e, hn, hs, hr, hm, ht, hi, he, hout⟩

theorem delegationSigningBytes_ok {f : DelegationFields} {out : Bytes}
    (h : delegationSigningBytes P f = .ok out) :
    ∃ text nonce sender recipient taskId kind issuedAt expiresAt,
      encodeUtf8 f.text = .ok text ∧ fromhex f.nonce = .ok nonce ∧
      encodeUtf8 f.sender = .ok sender ∧ encodeUtf8 f.recipient = .ok recipient ∧
      encodeUtf8 f.taskId = .ok taskId ∧ encodeAscii f.kind = .ok kind ∧
      encodeInt f.issuedAt = .ok issuedAt ∧ encodeInt f.expiresAt = .ok expiresAt ∧
      lpConcat [asciiBytes signingContext, sender, recipient, taskId, kind, issuedAt,
        expiresAt, P.sha256 text, nonce] = .ok out := by
  simp only [delegationSigningBytes, bind_ok] at h
  obtain ⟨text, hx, nonce, hn, sender, hs, recipient, hr, task, ht, kind, hk, i, hi, e, he, hout⟩ := h
  exact ⟨text, nonce, sender, recipient, task, kind, i, e, hx, hn, hs, hr, ht, hk, hi, he, hout⟩

theorem httpRequestSigningBytes_same {a b : HttpRequestFields} {out : Bytes}
    (ha : httpRequestSigningBytes P a = .ok out) (hb : httpRequestSigningBytes P b = .ok out) :
    a.Same P b := by
  obtain ⟨n₁, s₁, r₁, m₁, t₁, i₁, e₁, hn₁, hs₁, hr₁, hm₁, ht₁, hi₁, he₁, ho₁⟩ :=
    httpRequestSigningBytes_ok P ha
  obtain ⟨n₂, s₂, r₂, m₂, t₂, i₂, e₂, hn₂, hs₂, hr₂, hm₂, ht₂, hi₂, he₂, ho₂⟩ :=
    httpRequestSigningBytes_ok P hb
  have hfields := lpConcat_injective ho₁ ho₂
  simp only [List.cons.injEq, and_true, true_and] at hfields
  obtain ⟨rfl, rfl, rfl, rfl, rfl, rfl, hbody, rfl⟩ := hfields
  exact ⟨encodeUtf8_injective hs₁ hs₂, encodeUtf8_injective hr₁ hr₂,
    encodeAscii_injective hm₁ hm₂, encodeAscii_injective ht₁ ht₂, encodeInt_injective hi₁ hi₂,
    encodeInt_injective he₁ he₂, hbody, hn₁.trans hn₂.symm⟩

theorem delegationSigningBytes_same {a b : DelegationFields} {out : Bytes}
    (ha : delegationSigningBytes P a = .ok out) (hb : delegationSigningBytes P b = .ok out) :
    a.Same P b := by
  obtain ⟨x₁, n₁, s₁, r₁, t₁, k₁, i₁, e₁, hx₁, hn₁, hs₁, hr₁, ht₁, hk₁, hi₁, he₁, ho₁⟩ :=
    delegationSigningBytes_ok P ha
  obtain ⟨x₂, n₂, s₂, r₂, t₂, k₂, i₂, e₂, hx₂, hn₂, hs₂, hr₂, ht₂, hk₂, hi₂, he₂, ho₂⟩ :=
    delegationSigningBytes_ok P hb
  have hfields := lpConcat_injective ho₁ ho₂
  simp only [List.cons.injEq, and_true, true_and] at hfields
  obtain ⟨rfl, rfl, rfl, rfl, rfl, rfl, htext, rfl⟩ := hfields
  refine ⟨encodeUtf8_injective hs₁ hs₂, encodeUtf8_injective hr₁ hr₂,
    encodeUtf8_injective ht₁ ht₂, encodeAscii_injective hk₁ hk₂, encodeInt_injective hi₁ hi₂,
    encodeInt_injective he₁ he₂, ?_, hn₁.trans hn₂.symm⟩
  simp [textDigest, hx₁, hx₂, Except.map, htext]

theorem HttpRequestFields.Same.signingBytes_eq {a b : HttpRequestFields} (h : a.Same P b) :
    httpRequestSigningBytes P a = httpRequestSigningBytes P b := by
  simp only [httpRequestSigningBytes, h.sender, h.recipient, h.method, h.target, h.issuedAt,
    h.expiresAt, h.body, h.nonce]

theorem DelegationFields.Same.signingBytes_eq {a b : DelegationFields} (h : a.Same P b)
    {out : Bytes} (ha : delegationSigningBytes P a = .ok out) :
    delegationSigningBytes P b = .ok out := by
  obtain ⟨x, n, s, r, t, k, i, e, hx, hn, hs, hr, ht, hk, hi, he, hout⟩ :=
    delegationSigningBytes_ok P ha
  have htext := h.text
  cases hy : encodeUtf8 b.text with
  | error err => simp [textDigest, hx, hy, Except.map] at htext
  | ok y =>
    have hdigest : P.sha256 x = P.sha256 y := by simpa [textDigest, hx, hy, Except.map] using htext
    rw [h.sender] at hs
    rw [h.recipient] at hr
    rw [h.taskId] at ht
    rw [h.kind] at hk
    rw [h.issuedAt] at hi
    rw [h.expiresAt] at he
    rw [h.nonce] at hn
    rw [hdigest] at hout
    simp [delegationSigningBytes, bind, Except.bind, hy, hn, hs, hr, ht, hk, hi, he, hout]

theorem contexts_differ : asciiBytes httpSigningContext ≠ asciiBytes signingContext := by decide

/-- The two contexts keep requests and delegations apart. -/
theorem signingBytes_disjoint {f : HttpRequestFields} {g : DelegationFields} {out : Bytes}
    (hf : httpRequestSigningBytes P f = .ok out) (hg : delegationSigningBytes P g = .ok out) :
    False := by
  obtain ⟨_, _, _, _, _, _, _, _, _, _, _, _, _, _, hout₁⟩ := httpRequestSigningBytes_ok P hf
  obtain ⟨_, _, _, _, _, _, _, _, _, _, _, _, _, _, _, _, hout₂⟩ := delegationSigningBytes_ok P hg
  exact contexts_differ (List.cons.inj (lpConcat_injective hout₁ hout₂)).1

end Rdap.Identity
