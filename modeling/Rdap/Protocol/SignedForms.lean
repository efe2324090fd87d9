import Rdap.Braid.WireReader
import Rdap.Identity.Signing
import Rdap.Protocol.Canon
import Rdap.Protocol.Envelope
import Rdap.Protocol.PairCodec
import Rdap.Revocation.Record

/-!
# What is signed

The remaining records with signing bytes: acknowledgements of both versions, aliases, capabilities,
device certificates and prekey bundles. Each writes a label and then its fields, of fixed width or
with their length in front.
-/

set_option autoImplicit false

namespace Rdap.Protocol
open Python Lib Braid Identity

/-- `_canon.u64` -/
def canonU64 (n : Int) : Except PyExc Bytes := toBytes 8 n

/-! ## Acknowledgements -/

@[ext] structure Ack where
  ackedMessageId : Bytes
  status : Int
  ackNonce : Bytes
  createdAt : Int
  deriving DecidableEq

def Ack.domain : Bytes := asciiBytes (lit "rvn1/ack")

def Ack.signingBytes (a : Ack) : Except PyExc Bytes := do
  orRaise (a.ackedMessageId.length = 16) (lit "acked_message_id must be exactly 16 bytes")
  orRaise (a.ackNonce.length = 12) (lit "ack_nonce must be exactly 12 bytes")
  orRaise (0 ≤ a.status ∧ a.status ≤ 255) (lit "status must fit in one byte")
  let created ← canonU64 a.createdAt
  return Ack.domain ++ (a.ackedMessageId ++ (word 1 a.status ++ (a.ackNonce ++ created)))

@[ext] structure AckV2 where
  ackedMessageId : Bytes
  ackedObjectDigest : Bytes
  status : Int
  ackNonce : Bytes
  createdAtMs : Int
  recipientDeviceCertHash : Bytes
  sessionId : Bytes
  signature : Bytes
  deriving DecidableEq

def AckV2.domain : Bytes := asciiBytes (lit "ATSAM/v2/ack")

/-- `ack_signing_bytes` -/
def AckV2.signingBytes (a : AckV2) : Except PyExc Bytes := do
  orRaise (a.ackedMessageId.length = 16) (lit "acked_message_id")
  orRaise (a.ackedObjectDigest.length = 32) (lit "acked_object_digest")
  orRaise (a.status = 1 ∨ a.status = 2) (lit "status")
  orRaise (a.ackNonce.length = 12) (lit "ack_nonce")
  orRaise (a.recipientDeviceCertHash.length = 32 ∧ a.sessionId.length = 32) (lit "binding")
  let created ← toBytes 8 a.createdAtMs
  return AckV2.domain ++ (a.ackedMessageId ++ (a.ackedObjectDigest ++ (word 1 a.status ++
    (a.ackNonce ++ (created ++ (a.recipientDeviceCertHash ++ a.sessionId))))))

/-! ## Aliases, capabilities and certificates -/

@[ext] structure AliasRecord where
  aliasName : PyStr
  identityAddress : PyStr
  sequence : Int
  expiresAt : Int
  signature : Bytes
  deriving DecidableEq

def AliasRecord.domain : Bytes := asciiBytes (lit "rvn1/alias")

/-- `lp(text.encode())` -/
def lpText (text : PyStr) : Except PyExc Bytes := do
  let encoded ← encodeUtf8 text
  lp encoded

def AliasRecord.signingBytes (r : AliasRecord) : Except PyExc Bytes := do
  let name ← lpText r.aliasName
  let address ← lpText r.identityAddress
  let sequence ← canonU64 r.sequence
  let expires ← canonU64 r.expiresAt
  return AliasRecord.domain ++ (name ++ (address ++ (sequence ++ expires)))

@[ext] structure Capabilities where
  identityAddress : PyStr
  capabilityBits : Int
  expiresAt : Int
  signature : Bytes
  deriving DecidableEq

def Capabilities.domain : Bytes := asciiBytes (lit "rvn1/caps")

def Capabilities.signingBytes (c : Capabilities) : Except PyExc Bytes := do
  let address ← lpText c.identityAddress
  let bits ← canonU64 c.capabilityBits
  let expires ← canonU64 c.expiresAt
  return Capabilities.domain ++ (address ++ (bits ++ expires))

@[ext] structure DeviceCert where
  deviceEdPub : Bytes
  deviceXPub : Bytes
  deviceId : PyStr
  notBefore : Int
  notAfter : Int
  capabilities : Int
  signature : Bytes
  deriving DecidableEq

def DeviceCert.domain : Bytes := asciiBytes (lit "rvn1/devcert")

def DeviceCert.signingBytes (c : DeviceCert) : Except PyExc Bytes := do
  let edPub ← lp c.deviceEdPub
  let xPub ← lp c.deviceXPub
  let deviceId ← lpText c.deviceId
  let notBefore ← canonU64 c.notBefore
  let notAfter ← canonU64 c.notAfter
  let capabilities ← canonU64 c.capabilities
  return DeviceCert.domain ++ (edPub ++ (xPub ++ (deviceId ++ (notBefore ++ (notAfter ++ capabilities)))))

/-! ## Prekey bundles -/

@[ext] structure PrekeyBundle where
  identityEd25519Pub : Bytes
  deviceId : PyStr
  x25519Pub : Bytes
  mlkem768Ek : Bytes
  signedPrekeyId : Int
  oneTimePrekeyId : Int
  oneTimeX25519Pub : Option Bytes
  createdAtMs : Int
  expiresAtMs : Int
  signature : Bytes
  deriving DecidableEq

def PrekeyBundle.domain : Bytes := asciiBytes (lit "rvn1/prekey")
def PrekeyBundle.version : UInt8 := 1
def PrekeyBundle.mlkem768EkLen : Nat := 1184

def PrekeyBundle.signingBytes (b : PrekeyBundle) : Except PyExc Bytes := do
  orRaise (b.identityEd25519Pub.length = 32) (lit "identity Ed25519 public key must be 32 bytes")
  orRaise (b.x25519Pub.length = 32) (lit "X25519 public key must be 32 bytes")
  orRaise (b.mlkem768Ek.length = mlkem768EkLen)
    (lit "ML-KEM-768 encapsulation key must be " ++ natDecimal mlkem768EkLen ++ lit " bytes")
  orRaise (Word 4 b.signedPrekeyId) (lit "signed prekey id exceeds u32")
  orRaise (Word 4 b.oneTimePrekeyId) (lit "one-time prekey id exceeds u32")
  orRaise (¬(b.oneTimePrekeyId = 0 ∧ b.oneTimeX25519Pub ≠ none)) (lit "one-time public key present with zero id")
  orRaise (b.oneTimePrekeyId ≠ 0 → (b.oneTimeX25519Pub.map List.length) = some 32)
    (lit "non-zero one-time prekey id requires a 32-byte public key")
  let deviceId ← lpText b.deviceId
  let created ← canonU64 b.createdAtMs
  let expires ← canonU64 b.expiresAtMs
  return PrekeyBundle.domain ++ ([version] ++ (b.identityEd25519Pub ++ (deviceId ++ (b.x25519Pub ++
    (b.mlkem768Ek ++ (word 4 b.signedPrekeyId ++ (word 4 b.oneTimePrekeyId ++
      (b.oneTimeX25519Pub.getD [] ++ (created ++ expires)))))))))

/-! ## All of them -/

/-- A value of any kind that has signing bytes. -/
inductive Signable where
  | ack (a : Ack)
  | ackV2 (a : AckV2)
  | aliasRecord (r : AliasRecord)
  | capabilities (c : Capabilities)
  | deviceCert (c : DeviceCert)
  | prekeyBundle (b : PrekeyBundle)
  | deviceRevocation (r : Revocation.DeviceRevocation)
  | pairInit (v : Pairing.PairInit)
  | pairResponse (v : Pairing.PairResponse)
  | pairInitV2 (v : Pairing.PairInit)
  | pairResponseV2 (v : Pairing.PairResponse)
  | envelope (e : Rvn1.Envelope)
  | delegation (f : DelegationFields)
  | httpRequest (f : HttpRequestFields)

variable (P : Platform)

def Signable.signingBytes : Signable → Except PyExc Bytes
  | .ack a => a.signingBytes
  | .ackV2 a => a.signingBytes
  | .aliasRecord r => r.signingBytes
  | .capabilities c => c.signingBytes
  | .deviceCert c => c.signingBytes
  | .prekeyBundle b => b.signingBytes
  | .deviceRevocation r => Revocation.signingBytes P r
  | .pairInit v => Pairing.V1.initSigningBytes P v
  | .pairResponse v => Pairing.V1.responseSigningBytes v
  | .pairInitV2 v => Pairing.V2.initSigningBytes P v
  | .pairResponseV2 v => Pairing.V2.responseSigningBytes v
  | .envelope e => Rvn1.signingBytes P e
  | .delegation f => delegationSigningBytes P f
  | .httpRequest f => httpRequestSigningBytes P f

end Rdap.Protocol
