import Rdap.Lib.KeyedTable
import Rdap.Identity.Signing
import Rdap.Identity.ReplayCache

/-!
# Node keys, pinned keys and signing

A pin pairs an address with a public key only if the address is the one derived from the
key, character for character. The clock and the random nonce of a signer are arguments.
-/

set_option autoImplicit false

namespace Rdap.Identity
open Python Protocol Lib

/-- Address to hexadecimal public key. -/
abbrev Peers := KeyedTable PyStr PyStr

variable (P : Platform)

def validateAddressPublicKey (address publicKeyHex : PyStr) : Except PyExc Bytes :=
  match fromhex publicKeyHex with
  | .error _ => valueError (lit "public key must be hexadecimal")
  | .ok publicKey =>
    if publicKey.length ≠ 32 then valueError (lit "public key must be exactly 32 bytes")
    else if address.any fun c => !isAscii c then
      .error ⟨.typeError, lit "comparing strings with non-ASCII characters is not supported"⟩
    else if address ≠ Address.encode P publicKey then
      valueError (lit "RVN address/public-key mismatch: expected " ++ Address.encode P publicKey)
    else .ok publicKey

theorem validateAddressPublicKey_ok {address publicKeyHex : PyStr} {publicKey : Bytes}
    (h : validateAddressPublicKey P address publicKeyHex = .ok publicKey) :
    publicKey.length = 32 ∧ address = Address.encode P publicKey := by
  unfold validateAddressPublicKey at h
  split at h
  · cases h
  · split at h
    · cases h
    · rename_i hlen
      split at h
      · cases h
      · split at h
        · cases h
        · rename_i haddr
          obtain rfl := Except.ok.inj h
          exact ⟨by simpa using hlen, by simpa using haddr⟩

/-- A pin of a key under its own address passes, whatever its spelling. -/
theorem validateAddressPublicKey_of_hex {pinned : PyStr} {publicKey : Bytes}
    (hkey : fromhex pinned = .ok publicKey) (hlen : publicKey.length = 32) :
    validateAddressPublicKey P (Address.encode P publicKey) pinned = .ok publicKey := by
  have hascii : (Address.encode P publicKey).any (fun c => !isAscii c) = false := by
    apply List.any_eq_false.mpr
    intro c hc
    simp [List.all_eq_true.mp (Address.encode_ascii P publicKey) c hc]
  simp [validateAddressPublicKey, hkey, hlen, hascii]

structure RavenIdentity where
  publicBytes : Bytes
  publicBytes_length : publicBytes.length = 32
  sign : Bytes → Bytes

def RavenIdentity.publicHex (identity : RavenIdentity) : PyStr := hex identity.publicBytes

def RavenIdentity.address (identity : RavenIdentity) : PyStr :=
  Address.encode P identity.publicBytes

/-- What `issued_at`, `expires_at` and `ttl_seconds` come to at a given clock value. -/
structure Lifetime where
  issuedAt : Option Int := none
  expiresAt : Option Int := none
  ttlSeconds : Int := defaultDelegationTtlSeconds

def Lifetime.start (l : Lifetime) (now : Int) : Int := l.issuedAt.getD now

def Lifetime.expiry (l : Lifetime) (now : Int) : Int := l.expiresAt.getD (l.start now + l.ttlSeconds)

def Lifetime.allowed (l : Lifetime) (now : Int) : Bool :=
  0 < l.expiry now - l.start now && l.expiry now - l.start now ≤ maxDelegationTtlSeconds

/-- The block that a signer of a request returns. -/
def httpAuthorization (f : HttpRequestFields) (signatureB64 : PyStr) : Dict := [
  (lit "address", .str f.sender),
  (lit "recipient", .str f.recipient),
  (lit "issued_at", .int f.issuedAt),
  (lit "expires_at", .int f.expiresAt),
  (lit "nonce", .str f.nonce),
  (lit "algorithm", .str (lit "ed25519")),
  (lit "context", .str httpSigningContext),
  (lit "signature", .str signatureB64)]

/-- The block that a signer of a delegation returns. -/
def delegationMetadata (f : DelegationFields) (signatureB64 : PyStr) : Dict := [
  (lit "sender", .str f.sender),
  (lit "recipient", .str f.recipient),
  (lit "task_id", .str f.taskId),
  (lit "kind", .str f.kind),
  (lit "issued_at", .int f.issuedAt),
  (lit "expires_at", .int f.expiresAt),
  (lit "nonce", .str f.nonce),
  (lit "algorithm", .str (lit "ed25519")),
  (lit "context", .str signingContext),
  (lit "signature", .str signatureB64)]

def signHttpRequest (identity : RavenIdentity) (recipient method target : PyStr) (body : Bytes)
    (lifetime : Lifetime) (now : Int) (nonceRaw : Bytes) : Except PyExc Dict := do
  let _ ← validateAddressPublicKey P (identity.address P) identity.publicHex
  if recipient = [] ∨ method = [] ∨ !startsWith target (lit "/") then
    valueError (lit "recipient, method and absolute request target are required")
  else if !(method.all isAscii && target.all isAscii) then
    valueError (lit "HTTP method and request target must be ASCII")
  else if !lifetime.allowed now then
    valueError (lit "HTTP authorization lifetime is outside the allowed range")
  else do
    let fields : HttpRequestFields :=
      { sender := identity.address P, recipient, method, target, issuedAt := lifetime.start now,
        expiresAt := lifetime.expiry now, body, nonce := hex nonceRaw }
    let data ← httpRequestSigningBytes P fields
    return httpAuthorization fields (b64encode (identity.sign data))

def signDelegation (identity : RavenIdentity) (taskText recipient taskId kind : PyStr)
    (lifetime : Lifetime) (now : Int) (nonceRaw : Bytes) : Except PyExc Dict := do
  let _ ← validateAddressPublicKey P (identity.address P) identity.publicHex
  if recipient = [] ∨ taskId = [] then
    valueError (lit "recipient and task_id are required")
  else if kind ≠ lit "task" ∧ kind ≠ lit "answer" then
    valueError (lit "kind must be task or answer")
  else if !lifetime.allowed now then
    valueError (lit "delegation lifetime is outside the allowed range")
  else do
    let fields : DelegationFields :=
      { sender := identity.address P, recipient, taskId, kind, issuedAt := lifetime.start now,
        expiresAt := lifetime.expiry now, text := taskText, nonce := hex nonceRaw }
    let data ← delegationSigningBytes P fields
    return delegationMetadata fields (b64encode (identity.sign data))

end Rdap.Identity
