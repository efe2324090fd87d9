import Rdap.Protocol.PairAgreement
import Rdap.Protocol.RouteCounters

/-!
# The indexed session profile

One root keys two lanes, for messages and for acknowledgements, and in either lane a chain for each
direction. A sealed acknowledgement is encrypted under the key of its index, with the endpoints, the index
and the message it travels in as associated data.
-/

set_option autoImplicit false

namespace Rdap.Protocol.IndexedSession
open Python Lib Braid Identity

def profileId : Bytes := asciiBytes (lit "ATSAM/indexed-session/v1")

def rvna1Magic : Bytes := asciiBytes (lit "RVNA1") ++ [0, 0, 0]
def rvna1Proto : UInt8 := 0x03
def rvna1Suite : UInt8 := 0x01

def labelAckBase : Bytes := asciiBytes (lit "ATSAM/v1/ack-seal")
def labelChainInit : Bytes := asciiBytes (lit "ATSAM/v2/chain-init")
def labelChainAdvance : Bytes := asciiBytes (lit "ATSAM/v2/chain-advance")
def labelMsgKey : Bytes := asciiBytes (lit "ATSAM/v2/msg-key")
def saltMsgSeal : Bytes := asciiBytes (lit "ATSAM/v2/msg-seal/salt")
def aadDomain : Bytes := asciiBytes (lit "ATSAM/v1/msg-seal/aad")

def ackPlaintextLen : Nat := 101
def ackSealedWireLen : Nat := 143

variable (P : Platform)

/-! ## Endpoints -/

/-- `require_canonical_address(value).encode('ascii')` -/
def canonicalBytes (value : PyStr) : Except PyExc Bytes := do
  Pairing.requireCanonicalAddress P value
  encodeAscii value

def sessionContext (initiatorAddress responderAddress : PyStr) : Except PyExc Bytes := do
  let initiator ← canonicalBytes P initiatorAddress
  let responder ← canonicalBytes P responderAddress
  orRaise (initiator ≠ responder) (lit "session endpoints must differ")
  return profileId ++ [0] ++ initiator ++ [0] ++ responder

/-- The sender and the recipient. -/
def endpoints (initiatorAddress responderAddress : PyStr) (direction : Int) : Except PyExc (PyStr × PyStr) := do
  let _ ← sessionContext P initiatorAddress responderAddress
  if direction = 0 then return (initiatorAddress, responderAddress)
  else if direction = 1 then return (responderAddress, initiatorAddress)
  else valueError (lit "direction must be 0 or 1")

/-! ## Keys -/

def requireRoot (root : Bytes) : Except PyExc Unit :=
  orRaise (root.length = 32) (lit "K_root must be exactly 32 bytes")

def initialChainKey (root : Bytes) (sender recipient : PyStr) : Except PyExc Bytes := do
  requireRoot root
  let senderB ← canonicalBytes P sender
  let recipientB ← canonicalBytes P recipient
  orRaise (senderB ≠ recipientB) (lit "chain endpoints must differ")
  return hkdfSha256 P root [] (labelChainInit ++ [0] ++ senderB ++ [0] ++ recipientB) 32

def advanceChainKey (chainKey : Bytes) : Except PyExc Bytes := do
  orRaise (chainKey.length = 32) (lit "chain key must be exactly 32 bytes")
  return hkdfSha256 P chainKey [] labelChainAdvance 32

def laneMessageKey (chainKey : Bytes) (sender recipient : PyStr) : Except PyExc Bytes := do
  orRaise (chainKey.length = 32) (lit "chain key must be exactly 32 bytes")
  let senderB ← canonicalBytes P sender
  let recipientB ← canonicalBytes P recipient
  return hkdfSha256 P chainKey saltMsgSeal (labelMsgKey ++ [0] ++ senderB ++ [0] ++ recipientB) 32

/-- The loop of `chain_key_at_index`. -/
def advanceTimes : Nat → Bytes → Except PyExc Bytes
  | 0, chainKey => return chainKey
  | n + 1, chainKey => do
    let next ← advanceChainKey P chainKey
    advanceTimes n next

def chainKeyAtIndex (root : Bytes) (sender recipient : PyStr) (index : Int) : Except PyExc Bytes := do
  orRaise (0 ≤ index ∧ index ≤ 0xFFFFFFFF) (lit "index must fit u32")
  let chainKey ← initialChainKey P root sender recipient
  advanceTimes P index.toNat chainKey

def ackBaseKey (root : Bytes) : Except PyExc Bytes := do
  requireRoot root
  return hkdfSha256 P root [] labelAckBase 32

def ackChainKeyAtIndex (root : Bytes) (initiatorAddress responderAddress : PyStr) (direction index : Int) :
    Except PyExc Bytes := do
  let (sender, recipient) ← endpoints P initiatorAddress responderAddress direction
  let base ← ackBaseKey P root
  chainKeyAtIndex P base sender recipient index

def ackKeyAtIndex (root : Bytes) (initiatorAddress responderAddress : PyStr) (direction index : Int) :
    Except PyExc Bytes := do
  let (sender, recipient) ← endpoints P initiatorAddress responderAddress direction
  let chainKey ← ackChainKeyAtIndex P root initiatorAddress responderAddress direction index
  laneMessageKey P chainKey sender recipient

/-! ## Associated data -/

/-- `value[a:b]` -/
def between (s : PyStr) (a b : Nat) : PyStr := (s.drop a).take (b - a)

def uuidText (messageId : Bytes) : Except PyExc PyStr := do
  orRaise (messageId.length = 16) (lit "message_id must be exactly 16 bytes")
  let value := P.upper (hex messageId)
  return value.take 8 ++ lit "-" ++ between value 8 12 ++ lit "-" ++ between value 12 16 ++ lit "-" ++
    between value 16 20 ++ lit "-" ++ value.drop 20

def buildAad (index : Int) (sender recipient : PyStr) (messageId : Bytes) : Except PyExc Bytes := do
  orRaise (0 ≤ index ∧ index ≤ 0xFFFFFFFF) (lit "index must fit u32")
  let senderB ← canonicalBytes P sender
  let recipientB ← canonicalBytes P recipient
  let text ← uuidText P messageId
  let msgIdB ← encodeAscii text
  let indexB ← toBytes 4 index
  return P.sha256 (aadDomain ++ [0] ++ [rvna1Proto, rvna1Suite] ++ indexB ++ [0] ++ senderB ++ [0] ++ recipientB ++
    [0] ++ msgIdB)

/-! ## Signed acknowledgements -/

structure SignedAck where
  record : Ack
  signature : Bytes
  deriving DecidableEq

def encodeSignedAck (record : Ack) (signature : Bytes) : Except PyExc Bytes := do
  let _ ← record.signingBytes
  orRaise (record.status = 1 ∨ record.status = 2) (lit "ACK status must be delivered(1) or read(2)")
  orRaise (signature.length = 64) (lit "ACK signature must be exactly 64 bytes")
  let created ← toBytes 8 record.createdAt
  return record.ackedMessageId ++ (word 1 record.status ++ (record.ackNonce ++ (created ++ signature)))

def decodeSignedAck (data : Bytes) : Except PyExc SignedAck := do
  orRaise (data.length = ackPlaintextLen) (lit "signed ACK plaintext must be exactly 101 bytes")
  let status : Int := (data.getD 16 0).toNat
  orRaise (status = 1 ∨ status = 2) (lit "ACK status must be delivered(1) or read(2)")
  let record : Ack :=
    { ackedMessageId := data.take 16
      status
      ackNonce := (data.drop 17).take 12
      createdAt := ofBigEndian ((data.drop 29).take 8) }
  return ⟨record, (data.drop 37).take 64⟩

/-! ## Sealing -/

/-- `ChaCha20Poly1305`: the key, the nonce, the text and the associated data. A text that was encrypted is
decrypted to itself, and a tag of 16 bytes is added. -/
structure Aead where
  encrypt : Bytes → Bytes → Bytes → Bytes → Bytes
  decrypt : Bytes → Bytes → Bytes → Bytes → Except PyExc Bytes
  decrypt_encrypt : ∀ key nonce plaintext aad, decrypt key nonce (encrypt key nonce plaintext aad) aad = .ok plaintext
  encrypt_length : ∀ key nonce plaintext aad, (encrypt key nonce plaintext aad).length = plaintext.length + 16

/-- The key and the associated data of one acknowledgement. -/
def ackContext (root : Bytes) (initiatorAddress responderAddress : PyStr) (direction index : Int)
    (outerMessageId : Bytes) : Except PyExc (Bytes × Bytes) := do
  let (sender, recipient) ← endpoints P initiatorAddress responderAddress direction
  let key ← ackKeyAtIndex P root initiatorAddress responderAddress direction index
  let aad ← buildAad P index sender recipient outerMessageId
  return (key, aad)

variable (A : Aead)

def sealAck (root : Bytes) (initiatorAddress responderAddress : PyStr) (direction index : Int)
    (outerMessageId plaintext nonce : Bytes) : Except PyExc Bytes := do
  orRaise (plaintext.length = ackPlaintextLen) (lit "signed ACK plaintext must be exactly 101 bytes")
  let _ ← decodeSignedAck plaintext
  orRaise (nonce.length = 12) (lit "ChaCha20-Poly1305 nonce must be exactly 12 bytes")
  let (key, aad) ← ackContext P root initiatorAddress responderAddress direction index outerMessageId
  let indexB ← toBytes 4 index
  return rvna1Magic ++ [rvna1Proto, rvna1Suite] ++ indexB ++ nonce ++ A.encrypt key nonce plaintext aad

/-- The index and the nonce of a sealed wire. -/
def wireIndex (wire : Bytes) : Int := ofBigEndian ((wire.drop 10).take 4)
def wireNonce (wire : Bytes) : Bytes := (wire.drop 14).take 12

def openAck (root : Bytes) (initiatorAddress responderAddress : PyStr) (direction : Int)
    (outerMessageId wire : Bytes) : Except PyExc Bytes := do
  orRaise (wire.length = ackSealedWireLen) (lit "sealed ACK body must be exactly 143 bytes")
  orRaise (wire.take 8 = rvna1Magic ∧ wire.getD 8 0 = rvna1Proto ∧ wire.getD 9 0 = rvna1Suite)
    (lit "unsupported sealed ACK header")
  let (key, aad) ← ackContext P root initiatorAddress responderAddress direction (wireIndex wire) outerMessageId
  let plaintext ← A.decrypt key (wireNonce wire) (wire.drop 26) aad
  orRaise (plaintext.length = ackPlaintextLen) (lit "opened ACK plaintext has wrong size")
  let _ ← decodeSignedAck plaintext
  return plaintext

end Rdap.Protocol.IndexedSession
