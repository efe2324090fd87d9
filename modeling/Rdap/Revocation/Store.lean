import Rdap.Revocation.Snapshot
import Rdap.Lib.KeyedTable

/-!
# The conformance store of revocations

A verified claim is inserted, or left out with a marker when the store is full. Keys and
digests that the source writes in hexadecimal are kept as the bytes they stand for. An
operation returns the store with its result, also when it raises, since the snapshot that
goes into a result is taken after the changes.
-/

set_option autoImplicit false

namespace Rdap.Revocation
open Python Protocol Lib

inductive TargetKind where
  | deviceId
  | deviceEdPub
  | deviceXPub
  | deviceCertHash
  deriving DecidableEq

structure RevokedTarget where
  kind : TargetKind
  value : Bytes
  claimDigest : Bytes
  revocationId : Bytes
  deriving DecidableEq

structure Collision where
  revocationId : Bytes
  firstClaimDigest : Bytes
  secondClaimDigest : Bytes

structure Fork where
  issuerDeviceId : Bytes
  issuerSeq : Int
  firstClaimDigest : Bytes
  secondClaimDigest : Bytes
  deriving DecidableEq

structure IssuerHead where
  issuerSeq : Int
  claimDigest : Bytes
  forkFlags : Bool

inductive JournalKind where
  | pendingRevoke
  | pendingRevokeExhausted
  deriving DecidableEq

structure Journal where
  kind : JournalKind
  claimDigest : Bytes
  exactRecordBytes : Bytes
  convertedFrom : Option JournalKind
  deriving DecidableEq

structure ConformanceStore where
  identityAddress : PyStr
  generation : Nat
  /-- Digest to wire. -/
  claims : KeyedTable Bytes Bytes
  revoked : List RevokedTarget
  exhausted : List ExhaustedMarker
  corrupt : List CorruptMarker
  /-- Revocation id to the digest of the first claim under it. -/
  seenRevocationIds : KeyedTable Bytes Bytes
  collisions : List Collision
  forks : List Fork
  issuerHeads : KeyedTable Bytes IssuerHead
  maxClaims : Int
  journal : Option Journal

/-- `ConformanceStore(identity_address, max_claims=...)` -/
def emptyStore (identityAddress : PyStr) (maxClaims : Int) : ConformanceStore where
  identityAddress := identityAddress
  generation := 0
  claims := .empty
  revoked := []
  exhausted := []
  corrupt := []
  seenRevocationIds := .empty
  collisions := []
  forks := []
  issuerHeads := .empty
  maxClaims := maxClaims
  journal := none

variable (P : Platform)

def ConformanceStore.storeHash (store : ConformanceStore) : Except PyExc Bytes :=
  revocationStoreHash P store.generation (store.claims.rows.map Prod.snd) store.exhausted store.corrupt

/-- `snapshot_dict`: the store and its hash; the other entries render the store's fields. -/
structure Snapshot where
  store : ConformanceStore
  revocationStoreHash : Bytes

def ConformanceStore.snapshotDict (store : ConformanceStore) : Except PyExc Snapshot :=
  (store.storeHash P).map fun hash => ⟨store, hash⟩

def lineageTargets (rec : DeviceRevocation) (cd : Bytes) : List RevokedTarget := [
  ⟨.deviceId, rec.deviceId, cd, rec.revocationId⟩,
  ⟨.deviceEdPub, rec.deviceEdPub, cd, rec.revocationId⟩,
  ⟨.deviceXPub, rec.deviceXPub, cd, rec.revocationId⟩,
  ⟨.deviceCertHash, rec.deviceCertHash, cd, rec.revocationId⟩]

/-- A target is appended unless one of its kind and value is there. -/
def appendTarget (revoked : List RevokedTarget) (t : RevokedTarget) : List RevokedTarget :=
  if revoked.any fun u => u.kind = t.kind ∧ u.value = t.value then revoked else revoked ++ [t]

def appendTargets (revoked : List RevokedTarget) (rec : DeviceRevocation) (cd : Bytes) :
    List RevokedTarget :=
  (lineageTargets rec cd).foldl appendTarget revoked

inductive ApplyOutcome where
  | idempotent
  | exhausted
  | applied
  deriving DecidableEq

structure ApplyResult where
  result : ApplyOutcome
  claimDigest : Bytes
  store : Snapshot

/-- The checks on the journal. -/
def checkJournal (store : ConformanceStore) (wire cd : Bytes) (pendingAlreadyWritten : Bool) :
    Except PyExc Unit :=
  if pendingAlreadyWritten then
    match store.journal with
    | none => valueError (lit "missing_pending")
    | some j =>
      if j.kind = .pendingRevokeExhausted then valueError (lit "direct_exhausted_consumption")
      else if j.kind ≠ .pendingRevoke then valueError (lit "missing_pending")
      else if j.exactRecordBytes ≠ wire then valueError (lit "pending_bytes_mismatch")
      else if j.claimDigest ≠ cd then valueError (lit "pending_digest_mismatch")
      else .ok ()
  else if store.journal.any fun j => j.kind = .pendingRevokeExhausted then
    valueError (lit "direct_exhausted_consumption")
  else .ok ()

/-- The store is full: the claim stays out, and a marker and the journal remember it. -/
def recordExhausted (store : ConformanceStore) (wire cd : Bytes) : ConformanceStore :=
  { store with
    exhausted := (store.exhausted.filter fun e => e.claimDigest ≠ cd) ++
      [⟨store.identityAddress, cd, wire⟩]
    journal := some ⟨.pendingRevokeExhausted, cd, wire, none⟩
    generation := store.generation + 1 }

/-- What an insertion does to the table of revocation ids and the list of collisions. -/
def noteRevocationId (store : ConformanceStore) (rid cd : Bytes) : ConformanceStore :=
  match store.seenRevocationIds.get? rid with
  | some first =>
    if first ≠ cd then { store with collisions := store.collisions ++ [⟨rid, first, cd⟩] }
    else { store with seenRevocationIds := store.seenRevocationIds.set rid cd }
  | none => { store with seenRevocationIds := store.seenRevocationIds.set rid cd }

/-- The head of the issuer carries the sequence number, for another claim. -/
def headForks (heads : KeyedTable Bytes IssuerHead) (rec : DeviceRevocation) (cd : Bytes) :
    Option IssuerHead :=
  (heads.get? rec.issuerDeviceId).filter fun head =>
    head.issuerSeq = rec.issuerSeq ∧ head.claimDigest ≠ cd

/-- What an insertion does to the heads of the issuers and the list of forks. -/
def noteIssuer (store : ConformanceStore) (rec : DeviceRevocation) (cd : Bytes) : ConformanceStore :=
  let forked := headForks store.issuerHeads rec cd
  { store with
    forks := store.forks ++ (forked.map fun head =>
      (⟨rec.issuerDeviceId, rec.issuerSeq, head.claimDigest, cd⟩ : Fork)).toList
    issuerHeads := store.issuerHeads.set rec.issuerDeviceId ⟨rec.issuerSeq, cd, forked.isSome⟩ }

def insertClaim (store : ConformanceStore) (wire : Bytes) (rec : DeviceRevocation) (cd : Bytes)
    (pendingAlreadyWritten : Bool) : ConformanceStore :=
  let noted := noteIssuer (noteRevocationId store rec.revocationId cd) rec cd
  { noted with
    claims := noted.claims.set cd wire
    revoked := appendTargets noted.revoked rec cd
    exhausted := noted.exhausted.filter fun e => e.claimDigest ≠ cd
    journal := if pendingAlreadyWritten ∨ noted.journal.any fun j => j.kind = .pendingRevoke
      then none else noted.journal
    generation := noted.generation + 1 }

/-- Decoded and verified, for the identity of the store. -/
def admitClaim (store : ConformanceStore) (wire identityEdPub : Bytes) :
    Except PyExc DeviceRevocation := do
  let rec ← decode P wire
  orRaise (rec.identityAddress = store.identityAddress) (lit "identity_address mismatch")
  orRaise (verify P rec identityEdPub = true) (lit "verify failed")
  return rec

/-- The result for a store, whose snapshot may fail. -/
def resultOf (outcome : ApplyOutcome) (cd : Bytes) (store : ConformanceStore) :
    Except PyExc ApplyResult × ConformanceStore :=
  ((store.snapshotDict P).map fun snapshot => ⟨outcome, cd, snapshot⟩, store)

def applyVerifiedClaim (store : ConformanceStore) (wire identityEdPub : Bytes)
    (pendingAlreadyWritten : Bool) : Except PyExc ApplyResult × ConformanceStore :=
  let cd := claimDigest P wire
  match admitClaim P store wire identityEdPub with
  | .error e => (.error e, store)
  | .ok rec =>
    match checkJournal store wire cd pendingAlreadyWritten with
    | .error e => (.error e, store)
    | .ok () =>
      if store.claims.contains cd then resultOf P .idempotent cd store
      else if store.corrupt ≠ [] then
        (valueError (lit "REVOCATION_STORE_CORRUPT — fail closed"), store)
      else if store.claims.count ≥ store.maxClaims then
        resultOf P .exhausted cd (recordExhausted store wire cd)
      else resultOf P .applied cd (insertClaim store wire rec cd pendingAlreadyWritten)

def expandQuota (store : ConformanceStore) (newMax : Int) : Except PyExc Unit × ConformanceStore :=
  if newMax < store.maxClaims then (valueError (lit "quota may only expand"), store)
  else (.ok (), { store with maxClaims := newMax })

def convertExhaustedJournalToPending (store : ConformanceStore) :
    Except PyExc Unit × ConformanceStore :=
  match store.journal with
  | some j =>
    if j.kind = .pendingRevokeExhausted then
      (.ok (), { store with journal := some ⟨.pendingRevoke, j.claimDigest, j.exactRecordBytes,
        some .pendingRevokeExhausted⟩ })
    else (valueError (lit "no PENDING_REVOKE_EXHAUSTED journal"), store)
  | none => (valueError (lit "no PENDING_REVOKE_EXHAUSTED journal"), store)

/-- Why a journalled record is refused. -/
inductive ReverifyReason where
  | truncated
  | digestMismatch
  | badSignature
  | reverifyFailed
  deriving DecidableEq

def ReverifyReason.code : ReverifyReason → Int
  | .truncated => 1
  | .digestMismatch => 2
  | .badSignature => 3
  | .reverifyFailed => 9

/-- The body of the `try`. -/
def reverifyRecord (journal : Option Journal) (identityEdPub wire : Bytes)
    (claimedDigest : Option Bytes) : Except ReverifyReason Bytes :=
  if wire.length < fixedPrefixLen then .error .truncated
  else match decode P wire with
    | .error _ => .error .reverifyFailed
    | .ok rec =>
      let cd := claimDigest P wire
      if claimedDigest.any fun d => d ≠ cd then .error .digestMismatch
      else if journal.any fun j => j.claimDigest ≠ [] ∧ j.claimDigest ≠ cd then .error .digestMismatch
      else if verify P rec identityEdPub = false then .error .badSignature
      else .ok cd

inductive ReverifyResult where
  | ok (claimDigest : Bytes)
  | corrupt (reason : ReverifyReason) (store : Snapshot)

def recordCorrupt (store : ConformanceStore) (reason : ReverifyReason) : ConformanceStore :=
  { store with
    corrupt := store.corrupt ++ [⟨store.identityAddress, reason.code⟩]
    journal := none
    generation := store.generation + 1 }

def reverifyJournal (store : ConformanceStore) (identityEdPub : Bytes) (exactBytes : Option Bytes)
    (claimedDigest : Option Bytes) : Except PyExc ReverifyResult × ConformanceStore :=
  match exactBytes.or (store.journal.map Journal.exactRecordBytes) with
  | none => (valueError (lit "no journal"), store)
  | some wire =>
    match reverifyRecord P store.journal identityEdPub wire claimedDigest with
    | .ok cd => (.ok (.ok cd), store)
    | .error reason =>
      let store := recordCorrupt store reason
      ((store.snapshotDict P).map fun snapshot => .corrupt reason snapshot, store)

/-- The properties of a device that a caller may know. -/
structure Device where
  deviceId : Option Bytes
  deviceEdPub : Option Bytes
  deviceXPub : Option Bytes
  deviceCertHash : Option Bytes

def Device.checks (device : Device) : List (TargetKind × Option Bytes) := [
  (.deviceId, device.deviceId), (.deviceEdPub, device.deviceEdPub),
  (.deviceXPub, device.deviceXPub), (.deviceCertHash, device.deviceCertHash)]

inductive AuthorizationReason where
  | revocationStoreCorrupt
  | identityRevokeExhausted
  | revokedTarget (matchedKind : TargetKind)
  | ok
  deriving DecidableEq

structure Authorization where
  authorized : Bool
  reason : AuthorizationReason
  surface : PyStr
  deriving DecidableEq

def isRevoked (revoked : List RevokedTarget) (check : TargetKind × Option Bytes) : Bool :=
  check.2.any fun value => revoked.any fun t => t.kind = check.1 ∧ t.value = value

def authorizeDevice (store : ConformanceStore) (device : Device) (surface : PyStr) : Authorization :=
  if store.corrupt ≠ [] then ⟨false, .revocationStoreCorrupt, surface⟩
  else if store.exhausted.any fun e => e.identityAddress = store.identityAddress then
    ⟨false, .identityRevokeExhausted, surface⟩
  else match device.checks.find? (isRevoked store.revoked) with
    | some check => ⟨false, .revokedTarget check.1, surface⟩
    | none => ⟨true, .ok, surface⟩

end Rdap.Revocation
