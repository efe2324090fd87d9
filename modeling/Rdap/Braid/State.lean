import Rdap.Braid.Wire

/-!
# The braid state

The state of a full braid and the ratchet state inside it, with the checks that both their
encoders and their decoders make.
-/

set_option autoImplicit false

namespace Rdap.Braid
open Python Lib

def rvfb1Magic : Bytes := [0x52, 0x56, 0x46, 0x42, 0x31, 0, 0, 0]
def rvfb1Schema : Int := 1
def rvfb1PrefixLen : Nat := 275
def rvft1Magic : Bytes := [0x52, 0x56, 0x46, 0x54, 0x31, 0, 0, 0]
def rvft1Schema : Int := 1
def rvft1MaxSize : Nat := 80505
def maxSckaChain : Nat := 8
def maxSckaSkipped : Nat := 256
def maxEcSkipped : Nat := 1000
def maxInboundSets : Nat := 8
def maxObjects : Nat := 32
def maxReplays : Nat := 64
def maxChunksPerEpoch : Nat := 64
def braidMaxChunkIndex : Int := 63

/-- `SOURCE_LENGTHS` -/
def sourceLength (kind : Int) : Option Int :=
  if kind = 1 then some 96 else if kind = 2 then some 1152
  else if kind = 5 then some 960 else if kind = 6 then some 160 else none

/-- `TLV_LENGTHS` -/
def tlvLength (tag : Int) : Option Nat :=
  if tag = 1 then some 2400 else if tag = 2 then some 32 else if tag = 3 then some 32
  else if tag = 4 then some 1152 else if tag = 5 then some 2080 else if tag = 6 then some 960
  else if tag = 7 then some 128 else if tag = 8 then some 64 else none

def requireBytes (value : Bytes) (length : Nat) (fieldName : PyStr) : Except PyExc Unit :=
  orRaise (value.length = length) (fieldName ++ lit " must be " ++ natDecimal length ++ lit " bytes")

/-- `lt` compares the keys. -/
def strictlySorted {α : Type} (lt : α → α → Bool) (values : List α) (fieldName : PyStr) :
    Except PyExc Unit :=
  orRaise ((values.zip values.tail).all fun p => lt p.1 p.2) (fieldName ++ lit " not strictly sorted")

/-- `for value in values: check(value)` -/
def checkEach {α : Type} (check : α → Except PyExc Unit) : List α → Except PyExc Unit
  | [] => .ok ()
  | value :: values => do
    check value
    checkEach check values

/-- `for value in values: out += ...` -/
def encodeEach {α : Type} (encode : α → Except PyExc Bytes) : List α → Except PyExc Bytes
  | [] => .ok []
  | value :: values => do
    let bytes ← encode value
    let rest ← encodeEach encode values
    return bytes ++ rest

/-- A list behind its length. -/
def encodeList {α : Type} (encode : α → Except PyExc Bytes) (values : List α) : Except PyExc Bytes := do
  let length ← toBytes 2 values.length
  let bytes ← encodeEach encode values
  return length ++ bytes

def readList {α : Type} (read : Bytes → Except PyExc (α × Bytes)) (r : Bytes) :
    Except PyExc (List α × Bytes) := do
  let (length, r) ← readWord 2 r
  readMany read length.toNat r

/-- A list whose length is checked before its elements are read. -/
def readCapped {α : Type} (cap : Nat) (message : PyStr) (read : Bytes → Except PyExc (α × Bytes))
    (r : Bytes) : Except PyExc (List α × Bytes) := do
  let (length, r) ← readWord 2 r
  orRaise (length ≤ cap) message
  readMany read length.toNat r

/-! ## RVFT1: the ratchets -/

structure SckaChainEntry where
  epoch : Int
  ck : Bytes
  n : Int
  deriving DecidableEq

structure SckaSkippedEntry where
  direction : Int
  epoch : Int
  n : Int
  messageKey : Bytes
  deriving DecidableEq

structure EcSkippedEntry where
  dhPub : Bytes
  n : Int
  messageKey : Bytes
  deriving DecidableEq

structure Rvft1 where
  sckaRk : Bytes
  sckaSendingEpoch : Int
  sckaReceivingEpoch : Int
  sckaSendChain : List SckaChainEntry
  sckaRecvChain : List SckaChainEntry
  sckaSendPn : Int
  sckaSkipped : List SckaSkippedEntry
  ecRk : Bytes
  ecDhsPriv : Bytes
  ecDhsPub : Bytes
  ecDhrPresent : Int
  ecDhrPub : Bytes
  ecCkSendPresent : Int
  ecCkRecvPresent : Int
  ecCkSend : Bytes
  ecCkRecv : Bytes
  ecNs : Int
  ecNr : Int
  ecPn : Int
  ecSkipped : List EcSkippedEntry
  deriving DecidableEq

/-- `bytes(32)` -/
def absentKey : Bytes := List.replicate 32 0

def validateOptionalKey (present : Int) (key : Bytes) (fieldName : PyStr) : Except PyExc Unit := do
  requireBytes key 32 fieldName
  if present = 0 then orRaise (key = absentKey) (fieldName ++ lit " must be zero when absent")
  else orRaise (present = 1) (fieldName ++ lit "_present")

def sckaSkippedBefore (a b : SckaSkippedEntry) : Bool :=
  a.direction < b.direction || (a.direction = b.direction &&
    (a.epoch < b.epoch || (a.epoch = b.epoch && a.n < b.n)))

def ecSkippedBefore (a b : EcSkippedEntry) : Bool :=
  a.dhPub < b.dhPub || (a.dhPub = b.dhPub && a.n < b.n)

def validateRvft1 (value : Rvft1) : Except PyExc Unit := do
  requireBytes value.sckaRk 32 (lit "scka_rk")
  requireBytes value.ecRk 32 (lit "ec_rk")
  requireBytes value.ecDhsPriv 32 (lit "ec_dhs_priv")
  requireBytes value.ecDhsPub 32 (lit "ec_dhs_pub")
  orRaise (value.sckaSendChain.length ≤ maxSckaChain) (lit "rvft1 scka send cap")
  orRaise (value.sckaRecvChain.length ≤ maxSckaChain) (lit "rvft1 scka recv cap")
  orRaise (value.sckaSkipped.length ≤ maxSckaSkipped) (lit "rvft1 scka skipped cap")
  orRaise (value.ecSkipped.length ≤ maxEcSkipped) (lit "rvft1 ec skipped cap")
  strictlySorted (fun a b => a.epoch < b.epoch) value.sckaSendChain (lit "rvft1 scka send chain")
  strictlySorted (fun a b => a.epoch < b.epoch) value.sckaRecvChain (lit "rvft1 scka recv chain")
  strictlySorted sckaSkippedBefore value.sckaSkipped (lit "rvft1 scka skipped")
  strictlySorted ecSkippedBefore value.ecSkipped (lit "rvft1 ec skipped")
  checkEach (fun e => requireBytes e.ck 32 (lit "rvft1 scka chain ck"))
    (value.sckaSendChain ++ value.sckaRecvChain)
  checkEach (fun e => do
    orRaise (e.direction = 0 ∨ e.direction = 1) (lit "rvft1 scka skipped direction")
    requireBytes e.messageKey 32 (lit "rvft1 scka skipped mk")) value.sckaSkipped
  checkEach (fun e => do
    requireBytes e.dhPub 32 (lit "rvft1 ec skipped dh_pub")
    requireBytes e.messageKey 32 (lit "rvft1 ec skipped mk")) value.ecSkipped
  validateOptionalKey value.ecDhrPresent value.ecDhrPub (lit "ec_dhr_pub")
  validateOptionalKey value.ecCkSendPresent value.ecCkSend (lit "ec_ck_send")
  validateOptionalKey value.ecCkRecvPresent value.ecCkRecv (lit "ec_ck_recv")

def readSckaChainEntry (r : Bytes) : Except PyExc (SckaChainEntry × Bytes) := do
  let (epoch, r) ← readWord 8 r
  let (ck, r) ← readArray32 r
  let (n, r) ← readWord 4 r
  return ({ epoch, ck, n }, r)

def readSckaSkippedEntry (r : Bytes) : Except PyExc (SckaSkippedEntry × Bytes) := do
  let (direction, r) ← readWord 1 r
  let (epoch, r) ← readWord 8 r
  let (n, r) ← readWord 4 r
  let (messageKey, r) ← readArray32 r
  return ({ direction, epoch, n, messageKey }, r)

def readEcSkippedEntry (r : Bytes) : Except PyExc (EcSkippedEntry × Bytes) := do
  let (dhPub, r) ← readArray32 r
  let (n, r) ← readWord 4 r
  let (messageKey, r) ← readArray32 r
  return ({ dhPub, n, messageKey }, r)

def decodeRvft1 (data : Bytes) : Except PyExc Rvft1 := do
  orRaise (data.length ≤ rvft1MaxSize) (lit "rvft1 exceeds max size")
  expectMagic data rvft1Magic
  let (schema, r) ← readWord 2 (data.drop 8)
  orRaise (schema = rvft1Schema) (lit "rvft1 bad schema")
  let (sckaRk, r) ← readArray32 r
  let (sckaSendingEpoch, r) ← readWord 8 r
  let (sckaReceivingEpoch, r) ← readWord 8 r
  let (sckaSendChain, r) ← readCapped maxSckaChain (lit "rvft1 scka send cap") readSckaChainEntry r
  let (sckaRecvChain, r) ← readCapped maxSckaChain (lit "rvft1 scka recv cap") readSckaChainEntry r
  let (sckaSendPn, r) ← readWord 4 r
  let (sckaSkipped, r) ←
    readCapped maxSckaSkipped (lit "rvft1 scka skipped cap") readSckaSkippedEntry r
  let (ecRk, r) ← readArray32 r
  let (ecDhsPriv, r) ← readArray32 r
  let (ecDhsPub, r) ← readArray32 r
  let (ecDhrPresent, r) ← readWord 1 r
  let (ecDhrPub, r) ← readArray32 r
  let (ecCkSendPresent, r) ← readWord 1 r
  let (ecCkRecvPresent, r) ← readWord 1 r
  let (ecCkSend, r) ← readArray32 r
  let (ecCkRecv, r) ← readArray32 r
  let (ecNs, r) ← readWord 4 r
  let (ecNr, r) ← readWord 4 r
  let (ecPn, r) ← readWord 4 r
  let (ecSkipped, r) ← readCapped maxEcSkipped (lit "rvft1 ec skipped cap") readEcSkippedEntry r
  let (reservedTail, r) ← readWord 4 r
  orRaise (reservedTail = 0) (lit "rvft1 reserved_tail")
  rejectTrailing r
  let value : Rvft1 := {
    sckaRk, sckaSendingEpoch, sckaReceivingEpoch, sckaSendChain, sckaRecvChain, sckaSendPn, sckaSkipped,
    ecRk, ecDhsPriv, ecDhsPub, ecDhrPresent, ecDhrPub, ecCkSendPresent, ecCkRecvPresent, ecCkSend,
    ecCkRecv, ecNs, ecNr, ecPn, ecSkipped }
  validateRvft1 value
  return value

def encodeSckaChainEntry (entry : SckaChainEntry) : Except PyExc Bytes := do
  let epoch ← toBytes 8 entry.epoch
  let n ← toBytes 4 entry.n
  return epoch ++ (entry.ck ++ n)

def encodeSckaSkippedEntry (entry : SckaSkippedEntry) : Except PyExc Bytes := do
  let direction ← toBytes 1 entry.direction
  let epoch ← toBytes 8 entry.epoch
  let n ← toBytes 4 entry.n
  return direction ++ (epoch ++ (n ++ entry.messageKey))

def encodeEcSkippedEntry (entry : EcSkippedEntry) : Except PyExc Bytes := do
  let n ← toBytes 4 entry.n
  return entry.dhPub ++ (n ++ entry.messageKey)

/-- `key if present == 1 else bytes(32)` -/
def keyOrZero (present : Int) (key : Bytes) : Bytes := if present = 1 then key else absentKey

/-- What `encode_rvft1` writes for a value that is valid. -/
def writeRvft1 (value : Rvft1) : Except PyExc Bytes := do
  let schema ← toBytes 2 rvft1Schema
  let sendingEpoch ← toBytes 8 value.sckaSendingEpoch
  let receivingEpoch ← toBytes 8 value.sckaReceivingEpoch
  let sendChain ← encodeList encodeSckaChainEntry value.sckaSendChain
  let recvChain ← encodeList encodeSckaChainEntry value.sckaRecvChain
  let sendPn ← toBytes 4 value.sckaSendPn
  let sckaSkipped ← encodeList encodeSckaSkippedEntry value.sckaSkipped
  let dhrPresent ← toBytes 1 value.ecDhrPresent
  let ckSendPresent ← toBytes 1 value.ecCkSendPresent
  let ckRecvPresent ← toBytes 1 value.ecCkRecvPresent
  let ns ← toBytes 4 value.ecNs
  let nr ← toBytes 4 value.ecNr
  let pn ← toBytes 4 value.ecPn
  let ecSkipped ← encodeList encodeEcSkippedEntry value.ecSkipped
  let tail ← toBytes 4 0
  return rvft1Magic ++ (schema ++ (value.sckaRk ++ (sendingEpoch ++ (receivingEpoch ++ (sendChain ++
    (recvChain ++ (sendPn ++ (sckaSkipped ++ (value.ecRk ++ (value.ecDhsPriv ++ (value.ecDhsPub ++
    (dhrPresent ++ (keyOrZero value.ecDhrPresent value.ecDhrPub ++ (ckSendPresent ++ (ckRecvPresent ++
    (keyOrZero value.ecCkSendPresent value.ecCkSend ++ (keyOrZero value.ecCkRecvPresent value.ecCkRecv ++
    (ns ++ (nr ++ (pn ++ (ecSkipped ++ tail)))))))))))))))))))))

def encodeRvft1 (value : Rvft1) : Except PyExc Bytes := do
  validateRvft1 value
  let out ← writeRvft1 value
  orRaise (out.length ≤ rvft1MaxSize) (lit "rvft1 exceeds max size")
  return out

/-! ## RVFB1: the state -/

structure Rvfb1Prefix where
  sessionId : Bytes
  role : Int
  generation : Int
  agent : Int
  terminalReason : Int
  authRoot : Bytes
  authMacKey : Bytes
  braidAgentEpoch : Int
  braidSendEpoch : Int
  braidRecvEpoch : Int
  flags : Int
  pendingPhase : Int
  pendingTransitionId : Bytes
  pendingBeforeDigest : Bytes
  pendingOutputDigest : Bytes
  pendingExecutionDigest : Bytes
  deriving DecidableEq

structure InboundChunk where
  index : Int
  payload : Bytes
  deriving DecidableEq

structure InboundSet where
  direction : Int
  epoch : Int
  sourceKind : Int
  expectedSourceLen : Int
  maxIndex : Int
  bitmap : Bytes
  chunks : List InboundChunk
  deriving DecidableEq

structure ActiveSend where
  direction : Int
  epoch : Int
  wireType : Int
  sourceKind : Int
  sourceLen : Int
  sourceDigest : Bytes
  sourceBytes : Bytes
  nextSpqrIndex : Int
  deriving DecidableEq

structure BraidObject where
  direction : Int
  epoch : Int
  sourceKind : Int
  objectDigest : Bytes
  deriving DecidableEq

structure ReplayRecord where
  transitionId : Bytes
  executionDigest : Bytes
  outputDigest : Bytes
  outputLen : Int
  flags : Int
  deriving DecidableEq

structure TlvEntry where
  tag : Int
  value : Bytes
  deriving DecidableEq

structure Rvfb1State where
  prefix_ : Rvfb1Prefix
  inboundSets : List InboundSet
  activeSend : Option ActiveSend
  objects : List BraidObject
  replays : List ReplayRecord
  tlvs : List TlvEntry
  trBytes : Bytes
  deriving DecidableEq

/-- The assertion that an encoded prefix has 275 bytes holds of all of them. -/
def encodePrefix (p : Rvfb1Prefix) : Except PyExc Bytes := do
  requireBytes p.sessionId 32 (lit "session_id")
  requireBytes p.authRoot 32 (lit "auth_root")
  requireBytes p.authMacKey 32 (lit "auth_mac_key")
  requireBytes p.pendingTransitionId 32 (lit "pending_transition_id")
  requireBytes p.pendingBeforeDigest 32 (lit "pending_before_digest")
  requireBytes p.pendingOutputDigest 32 (lit "pending_output_digest")
  requireBytes p.pendingExecutionDigest 32 (lit "pending_execution_digest")
  let schema ← toBytes 2 rvfb1Schema
  let role ← toBytes 1 p.role
  let generation ← toBytes 8 p.generation
  let agent ← toBytes 1 p.agent
  let terminalReason ← toBytes 2 p.terminalReason
  let agentEpoch ← toBytes 8 p.braidAgentEpoch
  let sendEpoch ← toBytes 8 p.braidSendEpoch
  let recvEpoch ← toBytes 8 p.braidRecvEpoch
  let flags ← toBytes 4 p.flags
  let pendingPhase ← toBytes 1 p.pendingPhase
  return rvfb1Magic ++ (schema ++ (p.sessionId ++ (role ++ (generation ++ (agent ++ (terminalReason ++
    (p.authRoot ++ (p.authMacKey ++ (agentEpoch ++ (sendEpoch ++ (recvEpoch ++ (flags ++ (pendingPhase ++
    (p.pendingTransitionId ++ (p.pendingBeforeDigest ++ (p.pendingOutputDigest ++
    p.pendingExecutionDigest))))))))))))))))

def decodePrefix (data : Bytes) : Except PyExc Rvfb1Prefix := do
  orRaise (rvfb1PrefixLen ≤ data.length) (lit "rvfb1 prefix truncated")
  expectMagic data rvfb1Magic
  let (schema, r) ← readWord 2 (data.drop 8)
  orRaise (schema = rvfb1Schema) (lit "rvfb1 bad schema")
  let (sessionId, r) ← readArray32 r
  let (role, r) ← readWord 1 r
  let (generation, r) ← readWord 8 r
  let (agent, r) ← readWord 1 r
  let (terminalReason, r) ← readWord 2 r
  let (authRoot, r) ← readArray32 r
  let (authMacKey, r) ← readArray32 r
  let (braidAgentEpoch, r) ← readWord 8 r
  let (braidSendEpoch, r) ← readWord 8 r
  let (braidRecvEpoch, r) ← readWord 8 r
  let (flags, r) ← readWord 4 r
  let (pendingPhase, r) ← readWord 1 r
  let (pendingTransitionId, r) ← readArray32 r
  let (pendingBeforeDigest, r) ← readArray32 r
  let (pendingOutputDigest, r) ← readArray32 r
  let (pendingExecutionDigest, r) ← readArray32 r
  orRaise (data.length = rvfb1PrefixLen + r.length) (lit "rvfb1 prefix length")
  return {
    sessionId, role, generation, agent, terminalReason, authRoot, authMacKey, braidAgentEpoch,
    braidSendEpoch, braidRecvEpoch, flags, pendingPhase, pendingTransitionId, pendingBeforeDigest,
    pendingOutputDigest, pendingExecutionDigest }

/-- `xs[i]`, where a negative `i` counts from the end. -/
def signedIndex (xs : Bytes) (i : Int) : Except PyExc UInt8 :=
  if 0 ≤ i then atIndex xs i.toNat
  else if 0 ≤ i + xs.length then atIndex xs (i + xs.length).toNat
  else .error ⟨.indexError, lit "index out of range"⟩

def bitmapGet (bitmap : Bytes) (index : Int) : Except PyExc Bool := do
  let byte ← signedIndex bitmap (index / 8)
  return byte.toNat.testBit (index % 8).toNat

/-- The required and the optional tags of an agent; all others are forbidden. -/
def tlvMatrix (agent : Int) : Option (List Int × List Int) :=
  if agent = 0 then some ([], []) else if agent = 1 then some ([1, 2, 3, 4, 8], [])
  else if agent = 2 then some ([1, 4], []) else if agent = 3 then some ([1, 4, 6], [])
  else if agent = 4 then some ([1, 6], []) else if agent = 5 then some ([], [])
  else if agent = 6 then some ([2, 3], []) else if agent = 7 then some ([2, 3, 5, 6], [])
  else if agent = 8 then some ([2, 3, 4, 5, 6], []) else if agent = 9 then some ([2, 3, 5, 6], [])
  else if agent = 10 then some ([7], [6]) else if agent = 11 then some ([], []) else none

def validateTlvsForAgent (agent : Int) (tlvs : List TlvEntry) : Except PyExc Unit :=
  match tlvMatrix agent with
  | none => valueError (lit "rvfb1 unknown agent for tlv matrix")
  | some (required, optional) => do
    checkEach (fun entry =>
      match tlvLength entry.tag with
      | none => valueError (lit "rvfb1 unknown tlv tag")
      | some expect => do
        orRaise (entry.value.length = expect) (lit "rvfb1 tlv length")
        orRaise (entry.tag ∈ required ∨ entry.tag ∈ optional) (lit "rvfb1 tlv forbidden for agent")) tlvs
    checkEach (fun req => orRaise (∃ entry ∈ tlvs, entry.tag = req) (lit "rvfb1 tlv required missing"))
      required

/-- Every bit that is set has its chunk, and the set bits are counted. -/
def countBits (inbound : InboundSet) : List Nat → Nat → Except PyExc Nat
  | [], count => .ok count
  | i :: rest, count => do
    let bit ← bitmapGet inbound.bitmap i
    if bit = true then
      orRaise (∃ chunk ∈ inbound.chunks, chunk.index = i) (lit "rvfb1 inbound bitmap orphan bit")
      countBits inbound rest (count + 1)
    else countBits inbound rest count

def validateInboundSet (inbound : InboundSet) : Except PyExc Unit := do
  orRaise (inbound.direction = 0 ∨ inbound.direction = 1) (lit "rvfb1 inbound direction")
  orRaise (sourceLength inbound.sourceKind ≠ none) (lit "rvfb1 inbound source_kind")
  orRaise (some inbound.expectedSourceLen = sourceLength inbound.sourceKind)
    (lit "rvfb1 inbound expected_source_len")
  orRaise (inbound.maxIndex = braidMaxChunkIndex)
    (lit "rvfb1 inbound max_index must be BRAID_MAX_CHUNK_INDEX")
  orRaise (inbound.bitmap.length = 8) (lit "rvfb1 inbound bitmap_len")
  orRaise (inbound.chunks.length ≤ maxChunksPerEpoch) (lit "rvfb1 inbound num_chunks")
  strictlySorted (fun a b => a.index < b.index) inbound.chunks (lit "rvfb1 inbound chunks")
  checkEach (fun chunk => do
    orRaise (chunk.index ≤ braidMaxChunkIndex ∧ chunk.index ≤ inbound.maxIndex)
      (lit "rvfb1 inbound chunk index")
    requireBytes chunk.payload 32 (lit "rvfb1 inbound chunk")
    let bit ← bitmapGet inbound.bitmap chunk.index
    orRaise (bit = true) (lit "rvfb1 inbound bitmap missing chunk bit")) inbound.chunks
  let bitCount ← countBits inbound (List.range (inbound.maxIndex + 1).toNat) 0
  orRaise (bitCount = inbound.chunks.length) (lit "rvfb1 inbound bitmap/chunk count")

def inboundBefore (a b : InboundSet) : Bool :=
  a.direction < b.direction || (a.direction = b.direction &&
    (a.epoch < b.epoch || (a.epoch = b.epoch && a.sourceKind < b.sourceKind)))

def objectBefore (a b : BraidObject) : Bool :=
  a.direction < b.direction || (a.direction = b.direction &&
    (a.epoch < b.epoch || (a.epoch = b.epoch && a.sourceKind < b.sourceKind)))

def replayBefore (a b : ReplayRecord) : Bool := a.transitionId < b.transitionId

def validateActiveSend : Option ActiveSend → Except PyExc Unit
  | none => .ok ()
  | some active => do
    orRaise (active.direction = 0 ∨ active.direction = 1) (lit "rvfb1 active_send direction")
    orRaise ((active.sourceBytes.length : Int) = active.sourceLen) (lit "rvfb1 active source_len")
    requireBytes active.sourceDigest 32 (lit "rvfb1 active source_digest")
    orRaise (active.nextSpqrIndex ≤ maxChunksPerEpoch) (lit "rvfb1 active_send next_spqr_index")

def validateState (state : Rvfb1State) : Except PyExc Unit := do
  orRaise (state.prefix_.role = 0 ∨ state.prefix_.role = 1) (lit "rvfb1 role")
  orRaise (state.inboundSets.length ≤ maxInboundSets) (lit "rvfb1 too many inbound sets")
  orRaise (state.objects.length ≤ maxObjects) (lit "rvfb1 too many objects")
  orRaise (state.replays.length ≤ maxReplays) (lit "rvfb1 too many replays")
  strictlySorted inboundBefore state.inboundSets (lit "rvfb1 inbound sets")
  checkEach validateInboundSet state.inboundSets
  strictlySorted objectBefore state.objects (lit "rvfb1 objects")
  strictlySorted replayBefore state.replays (lit "rvfb1 replays")
  strictlySorted (fun a b => a.tag < b.tag) state.tlvs (lit "rvfb1 tlvs")
  checkEach (fun replay => do
    requireBytes replay.transitionId 32 (lit "replay transition_id")
    requireBytes replay.executionDigest 32 (lit "replay execution_digest")
    requireBytes replay.outputDigest 32 (lit "replay output_digest")) state.replays
  validateTlvsForAgent state.prefix_.agent state.tlvs
  validateActiveSend state.activeSend
  expectMagic state.trBytes rvft1Magic

def readInboundChunk (r : Bytes) : Except PyExc (InboundChunk × Bytes) := do
  let (index, r) ← readWord 4 r
  let (payload, r) ← readSized r
  return ({ index, payload }, r)

def readInboundSet (r : Bytes) : Except PyExc (InboundSet × Bytes) := do
  let (direction, r) ← readWord 1 r
  let (epoch, r) ← readWord 8 r
  let (sourceKind, r) ← readWord 1 r
  let (expectedSourceLen, r) ← readWord 4 r
  let (maxIndex, r) ← readWord 4 r
  let (bitmap, r) ← readSized r
  let (chunks, r) ← readList readInboundChunk r
  return ({ direction, epoch, sourceKind, expectedSourceLen, maxIndex, bitmap, chunks }, r)

def readActiveSend (r : Bytes) : Except PyExc (Option ActiveSend × Bytes) := do
  let (present, r) ← readWord 1 r
  if present = 0 then return (none, r)
  else if present = 1 then
    let (direction, r) ← readWord 1 r
    let (epoch, r) ← readWord 8 r
    let (wireType, r) ← readWord 1 r
    let (sourceKind, r) ← readWord 1 r
    let (sourceLen, r) ← readWord 4 r
    let (sourceDigest, r) ← readArray32 r
    let (sourceBytes, r) ← readBytes sourceLen r
    let (nextSpqrIndex, r) ← readWord 4 r
    return (some {
      direction, epoch, wireType, sourceKind, sourceLen, sourceDigest, sourceBytes, nextSpqrIndex }, r)
  else valueError (lit "rvfb1 active_send present")

def readBraidObject (r : Bytes) : Except PyExc (BraidObject × Bytes) := do
  let (direction, r) ← readWord 1 r
  let (epoch, r) ← readWord 8 r
  let (sourceKind, r) ← readWord 1 r
  let (objectDigest, r) ← readArray32 r
  return ({ direction, epoch, sourceKind, objectDigest }, r)

def readReplayRecord (r : Bytes) : Except PyExc (ReplayRecord × Bytes) := do
  let (transitionId, r) ← readArray32 r
  let (executionDigest, r) ← readArray32 r
  let (outputDigest, r) ← readArray32 r
  let (outputLen, r) ← readWord 4 r
  let (flags, r) ← readWord 2 r
  return ({ transitionId, executionDigest, outputDigest, outputLen, flags }, r)

/-- A byte string behind its length in four bytes. -/
def readLong (r : Bytes) : Except PyExc (Bytes × Bytes) := do
  let (length, r) ← readWord 4 r
  readBytes length r

def readTlvEntry (r : Bytes) : Except PyExc (TlvEntry × Bytes) := do
  let (tag, r) ← readWord 2 r
  let (value, r) ← readLong r
  return ({ tag, value }, r)

def decodeRvfb1 (data : Bytes) : Except PyExc Rvfb1State := do
  let prefix_ ← decodePrefix data
  let (inboundSets, r) ← readList readInboundSet (data.drop rvfb1PrefixLen)
  let (activeSend, r) ← readActiveSend r
  let (objects, r) ← readList readBraidObject r
  let (replays, r) ← readList readReplayRecord r
  let (tlvs, r) ← readList readTlvEntry r
  let (trBytes, r) ← readLong r
  rejectTrailing r
  expectMagic trBytes rvft1Magic
  let state : Rvfb1State := { prefix_, inboundSets, activeSend, objects, replays, tlvs, trBytes }
  validateState state
  return state

def encodeInboundChunk (chunk : InboundChunk) : Except PyExc Bytes := do
  let index ← toBytes 4 chunk.index
  let payload ← encodeSized chunk.payload
  return index ++ payload

def encodeInboundSet (inbound : InboundSet) : Except PyExc Bytes := do
  let direction ← toBytes 1 inbound.direction
  let epoch ← toBytes 8 inbound.epoch
  let sourceKind ← toBytes 1 inbound.sourceKind
  let expectedSourceLen ← toBytes 4 inbound.expectedSourceLen
  let maxIndex ← toBytes 4 inbound.maxIndex
  let bitmap ← encodeSized inbound.bitmap
  let chunks ← encodeList encodeInboundChunk inbound.chunks
  return direction ++ (epoch ++ (sourceKind ++ (expectedSourceLen ++ (maxIndex ++ (bitmap ++ chunks)))))

def encodeActiveSend : Option ActiveSend → Except PyExc Bytes
  | none => toBytes 1 0
  | some active => do
    let present ← toBytes 1 1
    let direction ← toBytes 1 active.direction
    let epoch ← toBytes 8 active.epoch
    let wireType ← toBytes 1 active.wireType
    let sourceKind ← toBytes 1 active.sourceKind
    let sourceLen ← toBytes 4 active.sourceLen
    let nextSpqrIndex ← toBytes 4 active.nextSpqrIndex
    return present ++ (direction ++ (epoch ++ (wireType ++ (sourceKind ++ (sourceLen ++
      (active.sourceDigest ++ (active.sourceBytes ++ nextSpqrIndex)))))))

def encodeBraidObject (item : BraidObject) : Except PyExc Bytes := do
  requireBytes item.objectDigest 32 (lit "object_digest")
  let direction ← toBytes 1 item.direction
  let epoch ← toBytes 8 item.epoch
  let sourceKind ← toBytes 1 item.sourceKind
  return direction ++ (epoch ++ (sourceKind ++ item.objectDigest))

def encodeReplayRecord (replay : ReplayRecord) : Except PyExc Bytes := do
  let outputLen ← toBytes 4 replay.outputLen
  let flags ← toBytes 2 replay.flags
  return replay.transitionId ++ (replay.executionDigest ++ (replay.outputDigest ++ (outputLen ++ flags)))

def encodeLong (bytes : Bytes) : Except PyExc Bytes := do
  let length ← toBytes 4 bytes.length
  return length ++ bytes

def encodeTlvEntry (entry : TlvEntry) : Except PyExc Bytes := do
  let tag ← toBytes 2 entry.tag
  let value ← encodeLong entry.value
  return tag ++ value

def encodeRvfb1 (state : Rvfb1State) : Except PyExc Bytes := do
  validateState state
  let start ← encodePrefix state.prefix_
  let inboundSets ← encodeList encodeInboundSet state.inboundSets
  let activeSend ← encodeActiveSend state.activeSend
  let objects ← encodeList encodeBraidObject state.objects
  let replays ← encodeList encodeReplayRecord state.replays
  let tlvs ← encodeList encodeTlvEntry state.tlvs
  let trBytes ← encodeLong state.trBytes
  return start ++ (inboundSets ++ (activeSend ++ (objects ++ (replays ++ (tlvs ++ trBytes)))))

end Rdap.Braid
