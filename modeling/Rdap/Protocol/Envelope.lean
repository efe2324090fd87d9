import Rdap.Lib.Layout
import Rdap.Braid.WireReader
import Rdap.Python.Value

/-!
# The RVN1 envelope

A prefix of fixed width with three lengths, then the three parts of those lengths. `struct.pack`
fits byte strings to their width and refuses integers that have none.
-/

set_option autoImplicit false

namespace Rdap.Protocol.Rvn1
open Python Lib Braid

/-- `RVN1` -/
def magic : Bytes := [0x52, 0x56, 0x4e, 0x31]
def version : Int := 1

/-- The widths of `>4sBBH16s16sQQQBB12sHIH`. -/
def prefixFmt : List Nat := [4, 1, 1, 2, 16, 16, 8, 8, 8, 1, 1, 12, 2, 4, 2]
def prefixLen : Nat := 86
def maxWireEnvelopeBytes : Nat := 1048576
def registeredEnvTypes : List Int := [1, 2, 3, 4]
def allowedFlags : Nat := 0x0003
def authenticationLen : Nat := 64

structure Envelope where
  envType : Int
  flags : Int
  messageId : Bytes
  routingTag : Bytes
  destDeviceHint : Int
  createdAt : Int
  expiresAt : Int
  hopLimit : Int
  replicationBudget : Int
  antiReplayNonce : Bytes
  ratchetHeaderCiphertext : Bytes
  messageCiphertext : Bytes
  senderAuthentication : Bytes
  deriving DecidableEq

/-! ## `struct.pack` -/

/-- The format `ns`. -/
def packBytes (n : Nat) (b : Bytes) : Bytes := b.take n ++ List.replicate (n - b.length) 0

/-- The formats `B`, `H`, `I` and `Q`. -/
def packUnsigned (w : Nat) (n : Int) : Except PyExc Bytes :=
  if Word w n then .ok (word w n) else .error ⟨.structError, lit "argument out of range"⟩

/-- The prefix, with the three fields that a relay may change and the authentication length as given. -/
def packPrefix (e : Envelope) (destDeviceHint hopLimit replicationBudget authLen : Int) : Except PyExc Bytes := do
  let ver ← packUnsigned 1 version
  let envType ← packUnsigned 1 e.envType
  let flags ← packUnsigned 2 e.flags
  let hint ← packUnsigned 8 destDeviceHint
  let created ← packUnsigned 8 e.createdAt
  let expires ← packUnsigned 8 e.expiresAt
  let hops ← packUnsigned 1 hopLimit
  let budget ← packUnsigned 1 replicationBudget
  let hdrLen ← packUnsigned 2 e.ratchetHeaderCiphertext.length
  let bodyLen ← packUnsigned 4 e.messageCiphertext.length
  let auth ← packUnsigned 2 authLen
  return [packBytes 4 magic, ver, envType, flags, packBytes 16 e.messageId, packBytes 16 e.routingTag, hint,
    created, expires, hops, budget, packBytes 12 e.antiReplayNonce, hdrLen, bodyLen, auth].flatten

def pack (e : Envelope) : Except PyExc Bytes := do
  let head ← packPrefix e e.destDeviceHint e.hopLimit e.replicationBudget e.senderAuthentication.length
  return head ++ e.ratchetHeaderCiphertext ++ e.messageCiphertext ++ e.senderAuthentication

/-! ## Unpacking -/

/-- `flags & ~ALLOWED_FLAGS` for two bytes of flags. -/
def strayFlags (flags : Nat) : Nat := flags &&& (0xFFFF ^^^ allowedFlags)

/-- The envelope of an unpacked prefix and what follows the prefix, if everything is consistent. -/
def unpackFields (raw : Bytes) : List Bytes → Option Envelope
  | [_, _, envType, flags, messageId, routingTag, destHint, createdAt, expiresAt, hopLimit, repl, nonce,
      hdrLen, bodyLen, authLen] =>
    if ((ofBigEndian envType : Nat) : Int) ∉ registeredEnvTypes ∨ strayFlags (ofBigEndian flags) ≠ 0 ∨
        ofBigEndian expiresAt ≤ ofBigEndian createdAt ∨ ofBigEndian authLen ≠ authenticationLen then none
    else
      let headerEnd := prefixLen + ofBigEndian hdrLen
      let bodyEnd := headerEnd + ofBigEndian bodyLen
      let authenticationEnd := bodyEnd + ofBigEndian authLen
      if authenticationEnd > maxWireEnvelopeBytes ∨ raw.length ≠ authenticationEnd then none
      else
        some
          { envType := ofBigEndian envType
            flags := ofBigEndian flags
            messageId
            routingTag
            destDeviceHint := ofBigEndian destHint
            createdAt := ofBigEndian createdAt
            expiresAt := ofBigEndian expiresAt
            hopLimit := ofBigEndian hopLimit
            replicationBudget := ofBigEndian repl
            antiReplayNonce := nonce
            ratchetHeaderCiphertext := (raw.drop prefixLen).take (headerEnd - prefixLen)
            messageCiphertext := (raw.drop headerEnd).take (bodyEnd - headerEnd)
            senderAuthentication := (raw.drop bodyEnd).take (authenticationEnd - bodyEnd) }
  | _ => none

def unpack (raw : Bytes) : Option Envelope :=
  if raw.length < prefixLen ∨ raw.length > maxWireEnvelopeBytes ∨ raw.take 4 ≠ magic ∨
      ((raw.getD 4 0).toNat : Int) ≠ version then none
  else unpackFields raw (cut prefixFmt (raw.take prefixLen))

variable (P : Platform)

/-- What the sender signs: the fields a relay may change are zero, the ciphertexts are hashed. -/
def signingBytes (e : Envelope) : Except PyExc Bytes := do
  let head ← packPrefix e 0 0 0 64
  return head ++ P.sha256 e.ratchetHeaderCiphertext ++ P.sha256 e.messageCiphertext

end Rdap.Protocol.Rvn1
