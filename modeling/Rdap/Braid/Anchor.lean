import Rdap.Lib.Framing
import Rdap.Lib.KeyedTable
import Rdap.Lib.Sorting
import Rdap.Protocol.Hmac
import Rdap.Python.Raise

/-!
# Protected anchors

An anchor is an authenticated blob that says how far the chain of a record has come. Whether
another one may be appended is decided from the unordered list of all blobs of all records.
-/

set_option autoImplicit false

namespace Rdap.Braid
open Python Protocol Lib

def rvfa1Len : Nat := 204
def rvfa1PrefixLen : Nat := 172
def initialAnchorSeq : Int := 1
/-- `ATSAM/v2/full-braid/durable/record` -/
def recordDomain : Bytes :=
  [0x41, 0x54, 0x53, 0x41, 0x4d, 0x2f, 0x76, 0x32, 0x2f, 0x66, 0x75, 0x6c, 0x6c, 0x2d, 0x62, 0x72,
    0x61, 0x69, 0x64, 0x2f, 0x64, 0x75, 0x72, 0x61, 0x62, 0x6c, 0x65, 0x2f, 0x72, 0x65, 0x63, 0x6f,
    0x72, 0x64]
def rvfa1Magic : Bytes := [0x52, 0x56, 0x46, 0x41, 0x31, 0, 0, 0]
def rvfa1Schema : Nat := 1
def zero32 : Bytes := List.replicate 32 0

inductive AnchorStatus where
  | head
  | deleting
  | tombstone
  deriving DecidableEq

def AnchorStatus.value : AnchorStatus → UInt8
  | .head => 1
  | .deleting => 2
  | .tombstone => 3

/-- `Rvfa1Status(n)` -/
def anchorStatus (n : UInt8) : Except PyExc AnchorStatus :=
  if n = 1 then .ok .head else if n = 2 then .ok .deleting else if n = 3 then .ok .tombstone
  else valueError (lit "bad status")

inductive AppendDecision where
  | appended
  | exactReplay
  | corrupt
  deriving DecidableEq

structure Rvfa1 where
  status : AnchorStatus
  role : Int
  recordKey : Bytes
  sessionId : Bytes
  anchorSeq : Int
  generation : Int
  clearedStateDigest : Bytes
  clearedStoreRevision : Int
  transitionId : Bytes
  horizonMs : Int
  hmac : Bytes
  deriving DecidableEq

variable (P : Platform)

def requireLen (value : Bytes) (length : Nat) (name : PyStr) : Except PyExc Bytes :=
  if value.length = length then .ok value
  else valueError (name ++ lit " must be " ++ natDecimal length ++ lit " bytes")

def fitsU64 (n : Int) : Prop := 0 ≤ n ∧ n ≤ 0xFFFFFFFFFFFFFFFF

instance decidableFitsU64 (n : Int) : Decidable (fitsU64 n) :=
  inferInstanceAs (Decidable (0 ≤ n ∧ n ≤ 0xFFFFFFFFFFFFFFFF))

def u64be (n : Int) : Bytes := bigEndian 8 n.toNat

def Rvfa1.prefixBytes (self : Rvfa1) : Except PyExc Bytes := do
  orRaise (self.role = 0 ∨ self.role = 1) (lit "role must be 0 or 1")
  orRaise (fitsU64 self.anchorSeq) (lit "anchor_seq out of range")
  orRaise (fitsU64 self.generation) (lit "generation out of range")
  orRaise (fitsU64 self.clearedStoreRevision) (lit "cleared_store_revision out of range")
  orRaise (fitsU64 self.horizonMs) (lit "horizon_ms out of range")
  let recordKey ← requireLen self.recordKey 32 (lit "record_key")
  let sessionId ← requireLen self.sessionId 32 (lit "session_id")
  let digest ← requireLen self.clearedStateDigest 32 (lit "cleared_state_digest")
  let transitionId ← requireLen self.transitionId 32 (lit "transition_id")
  return rvfa1Magic ++ bigEndian 2 rvfa1Schema ++ [self.status.value, UInt8.ofNat self.role.toNat] ++
    recordKey ++ sessionId ++ u64be self.anchorSeq ++ u64be self.generation ++ digest ++
    u64be self.clearedStoreRevision ++ transitionId ++ u64be self.horizonMs

/-- An empty or zero tag is computed; any other must be the right one. -/
def encodeRvfa1 (fields : Rvfa1) (kAnchor : Bytes) : Except PyExc Bytes := do
  let start ← fields.prefixBytes
  let kAnchor ← requireLen kAnchor 32 (lit "k_anchor")
  let tag := hmacSha256 P kAnchor start
  orRaise (fields.hmac = [] ∨ fields.hmac = zero32 ∨ fields.hmac = tag)
    (lit "provided hmac does not match K_anchor")
  orRaise ((start ++ tag).length = rvfa1Len) (lit "RVFA1 length mismatch")
  return start ++ tag

/-- `blob[start : start + n]` -/
def slice (blob : Bytes) (start n : Nat) : Bytes := (blob.drop start).take n

def sliceInt (blob : Bytes) (start n : Nat) : Int := ofBigEndian (slice blob start n)

def decodeRvfa1 (raw kAnchor : Bytes) : Except PyExc Rvfa1 := do
  let blob ← requireLen raw rvfa1Len (lit "rvfa1")
  orRaise (blob.take 8 = rvfa1Magic) (lit "bad magic")
  orRaise (ofBigEndian (slice blob 8 2) = rvfa1Schema) (lit "bad schema")
  let status ← anchorStatus (blob.getD 10 0)
  let role := blob.getD 11 0
  orRaise (role = 0 ∨ role = 1) (lit "bad role")
  let kAnchor ← requireLen kAnchor 32 (lit "k_anchor")
  let tag := blob.drop rvfa1PrefixLen
  orRaise (tag = hmacSha256 P kAnchor (blob.take rvfa1PrefixLen)) (lit "bad hmac")
  return {
    status, role := role.toNat, recordKey := slice blob 12 32, sessionId := slice blob 44 32,
    anchorSeq := sliceInt blob 76 8, generation := sliceInt blob 84 8,
    clearedStateDigest := slice blob 92 32, clearedStoreRevision := sliceInt blob 124 8,
    transitionId := slice blob 132 32, horizonMs := sliceInt blob 164 8, hmac := tag }

def recordKeyOf (kIndex sessionId : Bytes) : Except PyExc Bytes := do
  let kIndex ← requireLen kIndex 32 (lit "k_index")
  let sessionId ← requireLen sessionId 32 (lit "session_id")
  return hmacSha256 P kIndex (recordDomain ++ sessionId)

def recordInvariantsOk (item : Rvfa1) (kIndex : Bytes) : Except PyExc Bool := do
  let key ← recordKeyOf P kIndex item.sessionId
  if key ≠ item.recordKey then return false
  let isInitial : Bool := item.anchorSeq = initialAnchorSeq
  match item.status with
  | .head =>
    if item.horizonMs ≠ 0 then return false
    return if isInitial then item.transitionId = zero32 else item.transitionId ≠ zero32
  | .deleting => return !(isInitial || item.horizonMs = 0 || item.transitionId = zero32)
  | .tombstone => return !(isInitial || item.horizonMs = 0 || item.transitionId ≠ zero32)

def statusTransitionOk : Option AnchorStatus → AnchorStatus → Bool
  | none, next => next = .head
  | some .head, next => next = .head || next = .deleting
  | some .deleting, next => next = .tombstone
  | some .tombstone, _ => false

/-- The numbers go up from `seq` and every status follows the one before it. -/
def chainFrom (seq : Int) (before : Option AnchorStatus) : List Rvfa1 → Bool
  | [] => true
  | item :: rest => item.anchorSeq = seq && statusTransitionOk before item.status &&
      chainFrom (seq + 1) (some item.status) rest

def seqOrder (a b : Rvfa1) : Prop := a.anchorSeq ≤ b.anchorSeq

instance decidableSeqOrder : DecidableRel seqOrder :=
  fun a b => inferInstanceAs (Decidable (a.anchorSeq ≤ b.anchorSeq))

/-- Contiguous numbers from 1 with valid changes of status. -/
def establishedChainOk (sameRecord : List Rvfa1) : Bool :=
  chainFrom initialAnchorSeq none (sameRecord.insertionSort seqOrder)

/-- A blob that decodes and keeps the rules of its record; every exception is a `CodecError`. -/
def readBlob (kAnchor kIndex raw : Bytes) : Option Rvfa1 :=
  match decodeRvfa1 P raw kAnchor with
  | .error _ => none
  | .ok item =>
    match recordInvariantsOk P item kIndex with
    | .ok true => some item
    | _ => none

abbrev SeenBlobs := KeyedTable (Bytes × Int) Bytes

/-- The loop over the existing blobs; `none` is the early `CORRUPT`. -/
def scanExisting (kAnchor kIndex : Bytes) (candidate : Rvfa1) :
    List Bytes → SeenBlobs → List Rvfa1 → Option (SeenBlobs × List Rvfa1)
  | [], seen, parsed => some (seen, parsed)
  | raw :: rest, seen, parsed =>
    match readBlob P kAnchor kIndex raw with
    | none => none
    | some item =>
      if seen.contains (item.recordKey, item.anchorSeq) then none
      else if item.recordKey ≠ candidate.recordKey then
        scanExisting kAnchor kIndex candidate rest seen parsed
      else if item.sessionId ≠ candidate.sessionId ∨ item.role ≠ candidate.role then none
      else scanExisting kAnchor kIndex candidate rest
        (seen.set (item.recordKey, item.anchorSeq) raw) (parsed ++ [item])

/-- The decision once the blobs of the record are known. -/
def decideAppend (candidateRaw : Bytes) (candidate : Rvfa1) (seen : SeenBlobs) (sameRecord : List Rvfa1) :
    AppendDecision :=
  if establishedChainOk sameRecord = false then .corrupt
  else match seen.get? (candidate.recordKey, candidate.anchorSeq) with
    | some same => if same = candidateRaw then .exactReplay else .corrupt
    | none =>
      match sameRecord with
      | [] =>
        if candidate.anchorSeq ≠ initialAnchorSeq then .corrupt
        else if statusTransitionOk none candidate.status = false then .corrupt
        else .appended
      | item :: rest =>
        let highest := firstMax Rvfa1.anchorSeq item rest
        if highest.anchorSeq = 0xFFFFFFFFFFFFFFFF then .corrupt
        else if candidate.anchorSeq ≠ highest.anchorSeq + 1 then .corrupt
        else if statusTransitionOk (some highest.status) candidate.status = false then .corrupt
        else .appended

def classifyAppend (existingRaw : List Bytes) (candidateRaw kAnchor kIndex : Bytes) : AppendDecision :=
  match readBlob P kAnchor kIndex candidateRaw with
  | none => .corrupt
  | some candidate =>
    match scanExisting P kAnchor kIndex candidate existingRaw .empty [] with
    | none => .corrupt
    | some (seen, sameRecord) => decideAppend candidateRaw candidate seen sameRecord

end Rdap.Braid
