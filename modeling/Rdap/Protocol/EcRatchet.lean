import Rdap.Lib.Framing
import Rdap.Lib.KeyedTable
import Rdap.Protocol.Hmac
import Rdap.Python.Raise

/-!
# The double ratchet over X25519

Each side holds a root key, a sending chain, a receiving chain and the message keys of the
messages it skipped. A header with a new remote key turns the ratchet.
-/

set_option autoImplicit false

namespace Rdap.Protocol
open Python Lib

/-- `ATSAM/hybrid-ratchet/v2`, a zero and `EC-KDF-RK` -/
def ecRkInfo : Bytes :=
  [0x41, 0x54, 0x53, 0x41, 0x4d, 0x2f, 0x68, 0x79, 0x62, 0x72, 0x69, 0x64, 0x2d, 0x72, 0x61, 0x74,
    0x63, 0x68, 0x65, 0x74, 0x2f, 0x76, 0x32, 0, 0x45, 0x43, 0x2d, 0x4b, 0x44, 0x46, 0x2d, 0x52,
    0x4b]

def zeroKey : Bytes := List.replicate 32 0

/-- A private key that `x25519_public` takes. -/
def ValidPriv (priv : Bytes) : Prop := priv.length = 32 ∧ priv ≠ zeroKey

instance decidableValidPriv (priv : Bytes) : Decidable (ValidPriv priv) :=
  inferInstanceAs (Decidable (priv.length = 32 ∧ priv ≠ zeroKey))

/-- The key agreement of the library, with what it promises for keys that were generated. -/
structure X25519 where
  publicBytes : Bytes → Bytes
  exchange : Bytes → Bytes → Option Bytes
  publicBytes_valid : ∀ {priv}, ValidPriv priv →
    (publicBytes priv).length = 32 ∧ publicBytes priv ≠ zeroKey
  exchange_agrees : ∀ {a b}, ValidPriv a → ValidPriv b → ∃ ss,
    exchange a (publicBytes b) = some ss ∧ exchange b (publicBytes a) = some ss ∧
      ss.length = 32 ∧ ss ≠ zeroKey

variable (P : Platform) (X : X25519)

def x25519Public (priv : Bytes) : Except PyExc Bytes := do
  orRaise (ValidPriv priv) (lit "all-zero X25519 rejected")
  return X.publicBytes priv

def exchangeOrRaise (priv pub : Bytes) : Except PyExc Bytes :=
  match X.exchange priv pub with
  | some ss => .ok ss
  | none => valueError (lit "invalid X25519 input")

def x25519Dh (priv pub : Bytes) : Except PyExc Bytes := do
  orRaise (priv.length = 32 ∧ pub.length = 32) (lit "X25519 length")
  orRaise (priv ≠ zeroKey ∧ pub ≠ zeroKey) (lit "all-zero X25519 rejected")
  let ss ← exchangeOrRaise X priv pub
  orRaise (ss ≠ zeroKey) (lit "non-contributory DH rejected")
  return ss

/-- The output of `kdf_rk`: the next root and a chain key. -/
def rkStep (rk dhOut : Bytes) : Bytes × Bytes :=
  let okm := hkdfSha256 P dhOut rk ecRkInfo 64
  (okm.take 32, okm.drop 32)

def kdfRk (rk dhOut : Bytes) : Except PyExc (Bytes × Bytes) := do
  orRaise (rk.length = 32 ∧ dhOut.length = 32) (lit "rk and dh_out must be 32 bytes")
  orRaise (dhOut ≠ zeroKey) (lit "non-contributory DH rejected")
  return rkStep P rk dhOut

def nextChainKey (ck : Bytes) : Bytes := hmacSha256 P ck [2]

def messageKey (ck : Bytes) : Bytes := hmacSha256 P ck [1]

def kdfCk (ck : Bytes) : Except PyExc (Bytes × Bytes) := do
  orRaise (ck.length = 32) (lit "ck must be 32 bytes")
  return (nextChainKey P ck, messageKey P ck)

structure EcDrState where
  rk : Bytes
  dhsPriv : Bytes
  dhsPub : Bytes
  dhrPub : Option Bytes
  cks : Option Bytes
  ckr : Option Bytes
  ns : Nat := 0
  nr : Nat := 0
  pn : Nat := 0
  mkskipped : KeyedTable Bytes Bytes := .empty

/-- The numbers count messages from zero. -/
structure EcHeader where
  dhPub : Bytes
  pn : Nat
  n : Nat
  deriving DecidableEq

def ecDrInitAlice (rk0 alicePriv bobPub : Bytes) : Except PyExc EcDrState := do
  let ss ← x25519Dh X alicePriv bobPub
  let (rk, cks) ← kdfRk P rk0 ss
  let dhsPub ← x25519Public X alicePriv
  return { rk, dhsPriv := alicePriv, dhsPub, dhrPub := some bobPub, cks := some cks, ckr := none }

def ecDrInitBob (rk0 bobPriv : Bytes) : Except PyExc EcDrState := do
  let dhsPub ← x25519Public X bobPriv
  return { rk := rk0, dhsPriv := bobPriv, dhsPub, dhrPub := none, cks := none, ckr := none }

def ecDrEncrypt (state : EcDrState) : Except PyExc (EcDrState × EcHeader × Bytes) :=
  match state.cks with
  | none => valueError (lit "no sending chain")
  | some cks => do
    let (ck2, mk) ← kdfCk P cks
    return ({ state with cks := some ck2, ns := state.ns + 1 },
      { dhPub := state.dhsPub, pn := state.pn, n := state.ns }, mk)

/-- `_mk_key`: the index takes four bytes. -/
def mkKey (dhPub : Bytes) (n : Nat) : Except PyExc Bytes :=
  if n < 2 ^ 32 then .ok (dhPub ++ bigEndian 4 n)
  else .error ⟨.overflowError, lit "int too big to convert"⟩

def dhRatchet (state : EcDrState) (theirDh newLocalPriv : Bytes) : Except PyExc EcDrState := do
  let ss1 ← x25519Dh X state.dhsPriv theirDh
  let (rk1, ckr) ← kdfRk P state.rk ss1
  let localPub ← x25519Public X newLocalPriv
  let ss2 ← x25519Dh X newLocalPriv theirDh
  let (rk2, cks) ← kdfRk P rk1 ss2
  return { rk := rk2, dhsPriv := newLocalPriv, dhsPub := localPub, dhrPub := some theirDh
           cks := some cks, ckr := some ckr, ns := 0, nr := 0, pn := state.ns
           mkskipped := state.mkskipped }

def insertSkipped (maxMkskipped : Nat) (skipped : KeyedTable Bytes Bytes) (k mk : Bytes) :
    Except PyExc (KeyedTable Bytes Bytes) :=
  if skipped.contains k = true then .ok skipped
  else if maxMkskipped ≤ skipped.count then valueError (lit "MAX_MKSKIPPED_RETAINED exceeded")
  else .ok (skipped.set k mk)

/-- The loop that steps the receiving chain and keeps the keys on the way. -/
def skipLoop (maxMkskipped : Nat) (dhPub : Bytes) : Nat → Bytes → Nat → KeyedTable Bytes Bytes →
    Except PyExc (Bytes × KeyedTable Bytes Bytes)
  | 0, ck, _, skipped => .ok (ck, skipped)
  | steps + 1, ck, nr, skipped => do
    let (ck, mk) ← kdfCk P ck
    let key ← mkKey dhPub nr
    let skipped ← insertSkipped maxMkskipped skipped key mk
    skipLoop maxMkskipped dhPub steps ck (nr + 1) skipped

/-- Keep the message keys of the receiving chain up to an index. -/
def skipTo (maxSkip maxMkskipped : Nat) (st : EcDrState) (dhrPub ck : Bytes) (limit : Nat) :
    Except PyExc EcDrState := do
  orRaise (limit - st.nr ≤ maxSkip) (lit "MAX_SKIP exceeded")
  let (ck, skipped) ← skipLoop P maxMkskipped dhrPub (limit - st.nr) ck st.nr st.mkskipped
  return { st with ckr := some ck, nr := limit, mkskipped := skipped }

/-- What is left of the chain of the present remote key, before the ratchet turns. -/
def closeChain (maxSkip maxMkskipped : Nat) (st : EcDrState) (pn : Nat) : Except PyExc EcDrState :=
  match st.dhrPub, st.ckr with
  | some dhrPub, some ck => do
    orRaise (st.nr ≤ pn) (lit "pn behind nr")
    skipTo P maxSkip maxMkskipped st dhrPub ck pn
  | _, _ => .ok st

/-- The ratchet turns if the remote key is a new one. -/
def turnRatchet (maxSkip maxMkskipped : Nat) (newLocalPriv : Option Bytes) (st : EcDrState)
    (header : EcHeader) : Except PyExc EcDrState :=
  if st.dhrPub = some header.dhPub then .ok st
  else do
    let st ← closeChain P maxSkip maxMkskipped st header.pn
    match newLocalPriv with
    | none => valueError (lit "DH ratchet requires new_local_priv")
    | some newLocalPriv => dhRatchet P X st header.dhPub newLocalPriv

def advanceTo (maxSkip maxMkskipped : Nat) (st : EcDrState) (dhrPub ck : Bytes) (n : Nat) :
    Except PyExc EcDrState :=
  if st.nr < n then skipTo P maxSkip maxMkskipped st dhrPub ck n else .ok st

/-- Take the key with this index from the receiving chain. -/
def receiveAt (maxSkip maxMkskipped : Nat) (st : EcDrState) (n : Nat) :
    Except PyExc (EcDrState × Bytes) :=
  match st.dhrPub, st.ckr with
  | some dhrPub, some ck => do
    orRaise (st.nr ≤ n) (lit "replay of consumed index")
    let st ← advanceTo P maxSkip maxMkskipped st dhrPub ck n
    let (ck2, mk) ← kdfCk P (st.ckr.getD [])
    return ({ st with ckr := some ck2, nr := st.nr + 1 }, mk)
  | _, _ => valueError (lit "no receiving chain")

def ecDrDecrypt (maxSkip maxMkskipped : Nat) (newLocalPriv : Option Bytes) (state : EcDrState)
    (header : EcHeader) : Except PyExc (EcDrState × Bytes) := do
  let key ← mkKey header.dhPub header.n
  match state.mkskipped.get? key with
  | some mk => return ({ state with mkskipped := state.mkskipped.erase key }, mk)
  | none =>
    let st ← turnRatchet P X maxSkip maxMkskipped newLocalPriv state header
    receiveAt P maxSkip maxMkskipped st header.n

end Rdap.Protocol
