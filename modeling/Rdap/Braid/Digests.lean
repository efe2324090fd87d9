import Rdap.Braid.SystematicChunks
import Rdap.Protocol.Hmac

/-!
# Keys and digests of the braid

What a transition derives: the output key of an epoch, the keys and tags of the authenticator, and
the digests that bind states, inputs, outputs and chunks.
-/

set_option autoImplicit false

namespace Rdap.Braid
open Python Lib Protocol

/-- `b"..."` -/
def byteLit (s : String) : Bytes := (lit s).map fun c => UInt8.ofNat c.val

def infoAuthUpdate : Bytes := byteLit "Signal_PQCKA_V1_MLKEM768:Authenticator Update"
def infoEkheader : Bytes := byteLit "Signal_PQCKA_V1_MLKEM768:ekheader"
def infoCiphertext : Bytes := byteLit "Signal_PQCKA_V1_MLKEM768:ciphertext"
def infoSckaKey : Bytes := byteLit "Signal_PQCKA_V1_MLKEM768:SCKA Key"
def zeroSalt : Bytes := List.replicate 32 0

def domainState : Bytes := byteLit "ATSAM/v2/full-braid/state"
def domainInput : Bytes := byteLit "ATSAM/v2/full-braid/input"
def domainExecution : Bytes := byteLit "ATSAM/v2/full-braid/execution"
def domainOutput : Bytes := byteLit "ATSAM/v2/full-braid/output"
def domainTransitionId : Bytes := byteLit "ATSAM/v2/full-braid/transition-id"

variable (P : Platform)

/-! ## The authenticator -/

def kdfOk (sharedSecret : Bytes) (epoch : Int) : Except PyExc Bytes := do
  orRaise (sharedSecret.length = 32) (lit "shared secret must be 32 bytes")
  let epoch ← toBytes 8 epoch
  return hkdfSha256 P sharedSecret zeroSalt (infoSckaKey ++ epoch) 32

structure AuthState where
  rootKey : Bytes
  macKey : Bytes
  rootKey_length : rootKey.length = 32
  macKey_length : macKey.length = 32

/-- `AuthState(root_key, mac_key)` -/
def authState (rootKey macKey : Bytes) : Except PyExc AuthState :=
  if h : rootKey.length = 32 ∧ macKey.length = 32 then .ok ⟨rootKey, macKey, h.1, h.2⟩
  else valueError (lit "auth keys must be 32 bytes")

/-- The keys that `update` puts in the place of the old ones. -/
def AuthState.next (self : AuthState) (epoch updateKey : Bytes) : AuthState where
  rootKey := (hkdfSha256 P (self.rootKey ++ updateKey) zeroSalt (infoAuthUpdate ++ epoch) 64).take 32
  macKey := (hkdfSha256 P (self.rootKey ++ updateKey) zeroSalt (infoAuthUpdate ++ epoch) 64).drop 32
  rootKey_length := by rw [List.length_take, hkdfSha256_length]; rfl
  macKey_length := by rw [List.length_drop, hkdfSha256_length]

def AuthState.update (self : AuthState) (epoch : Int) (updateKey : Bytes) : Except PyExc AuthState := do
  let epoch ← toBytes 8 epoch
  return self.next P epoch updateKey

/-- `_mac` -/
def AuthState.mac (self : AuthState) (label : Bytes) (epoch : Int) (body : Bytes) : Except PyExc Bytes := do
  let epoch ← toBytes 8 epoch
  return hmacSha256 P self.macKey (label ++ epoch ++ body)

def AuthState.macHdr (self : AuthState) (epoch : Int) (header : Bytes) : Except PyExc Bytes :=
  self.mac P infoEkheader epoch header

def AuthState.macCt (self : AuthState) (epoch : Int) (ciphertext : Bytes) : Except PyExc Bytes :=
  self.mac P infoCiphertext epoch ciphertext

/-! ## Digests -/

def stateDigest (schemaRev : Int) (rvfb1Bytes : Bytes) : Except PyExc Bytes := do
  let schemaRev ← toBytes 2 schemaRev
  return P.sha256 (domainState ++ schemaRev ++ rvfb1Bytes)

def inputDigest (rvbi1Bytes : Bytes) : Bytes := P.sha256 (domainInput ++ rvbi1Bytes)

def executionDigest (rvbi1Bytes rvbe1Bytes : Bytes) : Except PyExc Bytes := do
  let inputLen ← toBytes 4 rvbi1Bytes.length
  let envLen ← toBytes 4 rvbe1Bytes.length
  return P.sha256 (domainExecution ++ inputLen ++ rvbi1Bytes ++ envLen ++ rvbe1Bytes)

def outputDigest (rvbo1Bytes : Bytes) : Bytes := P.sha256 (domainOutput ++ rvbo1Bytes)

def transitionIdDigest (sessionId : Bytes) (role direction generation : Int)
    (execution beforeState : Bytes) : Except PyExc Bytes := do
  orRaise (sessionId.length = 32 ∧ execution.length = 32 ∧ beforeState.length = 32)
    (lit "digest fields must be 32 bytes")
  let generation ← toBytes 8 generation
  return P.sha256 (domainTransitionId ++ sessionId ++ u8 role ++ u8 direction ++ generation ++ execution ++
    beforeState)

end Rdap.Braid
