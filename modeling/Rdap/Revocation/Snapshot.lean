import Rdap.Revocation.Record

/-!
# Canonical snapshots of a revocation store

The hash of a store is taken over its contents in sorted order, each record behind its length.
-/

set_option autoImplicit false

namespace Rdap.Revocation
open Python Protocol Lib

/-- `rvn1/device-revocation/store-v1` -/
def storeSnapshotDomain : Bytes := signingDomain ++
  [0x2f, 0x73, 0x74, 0x6f, 0x72, 0x65, 0x2d, 0x76, 0x31]

structure ExhaustedMarker where
  identityAddress : PyStr
  claimDigest : Bytes
  exactRecordBytes : Bytes
  deriving DecidableEq

structure CorruptMarker where
  scope : PyStr
  reasonCode : Int
  deriving DecidableEq

/-- `n.to_bytes(4, "big")` -/
def toBytes4 (n : Nat) : Except PyExc Bytes :=
  if n < 256 ^ 4 then .ok (bigEndian 4 n)
  else .error ⟨.overflowError, lit "int too big to convert"⟩

variable (P : Platform)

def claimField (record : Bytes) : Except PyExc Bytes := do
  orRaise ((claimDigest P record).length = 32) (lit "bad claim digest")
  let size ← toBytes4 record.length
  return claimDigest P record ++ size ++ record

/-- A marker with the bytes of its address. -/
def exhaustedField (entry : Bytes × ExhaustedMarker) : Except PyExc Bytes := do
  orRaise (entry.2.claimDigest.length = 32) (lit "bad exhausted digest")
  orRaise (claimDigest P entry.2.exactRecordBytes = entry.2.claimDigest)
    (lit "exhausted blob digest mismatch")
  let addr ← lp entry.1
  let size ← toBytes4 entry.2.exactRecordBytes.length
  return addr ++ entry.2.claimDigest ++ size ++ entry.2.exactRecordBytes

/-- A marker with the bytes of its scope. -/
def corruptField (entry : Bytes × CorruptMarker) : Except PyExc Bytes := do
  orRaise (entry.1.length ≤ 0xFFFF) (lit "corrupt scope too long")
  let scope ← lp entry.1
  return scope ++ [UInt8.ofNat (entry.2.reasonCode % 256).toNat]

def claimOrder (a b : Bytes) : Prop := claimDigest P a ≤ claimDigest P b

def exhaustedOrder (a b : Bytes × ExhaustedMarker) : Prop :=
  a.1 < b.1 ∨ a.1 = b.1 ∧ a.2.claimDigest ≤ b.2.claimDigest

def corruptOrder (a b : Bytes × CorruptMarker) : Prop := a.1 ≤ b.1

instance decidableClaimOrder : DecidableRel (claimOrder P) :=
  fun a b => inferInstanceAs (Decidable (claimDigest P a ≤ claimDigest P b))

instance decidableExhaustedOrder : DecidableRel exhaustedOrder :=
  fun a b => inferInstanceAs (Decidable (a.1 < b.1 ∨ a.1 = b.1 ∧ a.2.claimDigest ≤ b.2.claimDigest))

instance decidableCorruptOrder : DecidableRel corruptOrder :=
  fun a b => inferInstanceAs (Decidable (a.1 ≤ b.1))

/-- The sort keys of the markers, which are encoded before anything is compared. -/
def exhaustedKeys (exhausted : List ExhaustedMarker) : Except PyExc (List (Bytes × ExhaustedMarker)) :=
  exhausted.mapM fun e => (encodeAscii e.identityAddress).map fun key => (key, e)

def corruptKeys (corrupt : List CorruptMarker) : Except PyExc (List (Bytes × CorruptMarker)) :=
  corrupt.mapM fun c => (encodeUtf8 c.scope).map fun key => (key, c)

/-- The number of the records and the records themselves. -/
def countedRecords {α : Type} (field : α → Except PyExc Bytes) (entries : List α) : Except PyExc Bytes := do
  let count ← toBytes4 entries.length
  let fields ← entries.mapM field
  return count ++ fields.flatten

def canonicalStoreSnapshot (generation : Int) (claims : List Bytes)
    (exhausted : List ExhaustedMarker) (corrupt : List CorruptMarker) : Except PyExc Bytes := do
  orRaise (0 ≤ generation ∧ generation < 2 ^ 64) (lit "generation out of range")
  let claimsSorted := claims.insertionSort (claimOrder P)
  let exhSorted := (← exhaustedKeys exhausted).insertionSort exhaustedOrder
  let corSorted := (← corruptKeys corrupt).insertionSort corruptOrder
  let claimPart ← countedRecords (claimField P) claimsSorted
  let exhaustedPart ← countedRecords (exhaustedField P) exhSorted
  let corruptPart ← countedRecords corruptField corSorted
  return storeSnapshotDomain ++ [0] ++ u64 generation ++ claimPart ++ exhaustedPart ++ corruptPart

def revocationStoreHash (generation : Int) (claims : List Bytes) (exhausted : List ExhaustedMarker)
    (corrupt : List CorruptMarker) : Except PyExc Bytes :=
  (canonicalStoreSnapshot P generation claims exhausted corrupt).map P.sha256

end Rdap.Revocation
