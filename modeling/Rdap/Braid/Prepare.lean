import Rdap.Braid.Transition

/-!
# The prepared transition

A transition is journalled in three states: prepared, promoted and cleared. The header of the
journal carries the digests of all three, that of the state before, and that of the outputs.
-/

set_option autoImplicit false

namespace Rdap.Braid
open Python Lib Protocol

def rvbo1Magic : Bytes := [0x52, 0x56, 0x42, 0x4f, 0x31, 0, 0, 0]
def rvbo1Schema : Int := 1
def rvbj1Magic : Bytes := [0x52, 0x56, 0x42, 0x4a, 0x31, 0, 0, 0]
def braidRvorTtlMs : Int := 604800000
def intentNormal : Int := 0
def flagAwaitingComplete : Nat := 0

variable (P : Platform) (X : X25519) (O : Oracles)

/-! ## The outputs -/

def encodeEmptyRvbo1 : Bytes := rvbo1Magic ++ word 2 rvbo1Schema ++ word 2 0 ++ u8 0 ++ u8 0

/-- The channel header and the ciphertext come together or not at all. -/
def encodeSealing : Option Bytes → Option Bytes → Except PyExc Bytes
  | none, none => .ok (u8 0 ++ u8 0)
  | some chOut, some sealedCt => do
    orRaise (chOut.length = rvch1Len) (lit "RVBO1 ch_out length")
    let sealedCt ← encodeLong sealedCt
    return u8 1 ++ chOut ++ u8 1 ++ sealedCt
  | _, _ => valueError (lit "RVBO1 ch_out/sealed_ct pair")

def encodeRvbo1Frames (frames : List Bytes) (chOut sealedCt : Option Bytes) : Except PyExc Bytes := do
  let schema ← toBytes 2 rvbo1Schema
  let count ← toBytes 2 frames.length
  let frames ← encodeEach encodeLong frames
  let sealing ← encodeSealing chOut sealedCt
  return rvbo1Magic ++ schema ++ count ++ frames ++ sealing

def outputsOf (transitioned : TransitionResult) : Except PyExc Bytes :=
  match transitioned.frameBytes with
  | none => .ok encodeEmptyRvbo1
  | some frameBytes => encodeRvbo1Frames [frameBytes] transitioned.chOutBytes transitioned.sealedCt

/-! ## The journal -/

structure Rvbj1Header where
  sessionId : Bytes
  role : Int
  direction : Int
  intentKind : Int
  generation : Int
  transitionId : Bytes
  execution : Bytes
  inputD : Bytes
  beforeD : Bytes
  preparedD : Bytes
  promotedD : Bytes
  clearedD : Bytes
  outputD : Bytes
  objectD : Bytes
  retentionOriginMs : Int
  retentionExpiryMs : Int
  candidateLen : Int
  outputsLen : Int
  deriving DecidableEq

/-- The assertion that a header has 366 bytes holds of all that are written. -/
def encodeRvbj1Header (h : Rvbj1Header) : Except PyExc Bytes := do
  let schema ← toBytes 2 1
  let generation ← toBytes 8 h.generation
  let origin ← toBytes 8 h.retentionOriginMs
  let expiry ← toBytes 8 h.retentionExpiryMs
  let candidateLen ← toBytes 4 h.candidateLen
  let outputsLen ← toBytes 4 h.outputsLen
  return rvbj1Magic ++ schema ++ h.sessionId ++ u8 h.role ++ u8 h.direction ++ u8 h.intentKind ++ u8 0 ++
    generation ++ h.transitionId ++ h.execution ++ h.inputD ++ h.beforeD ++ h.preparedD ++ h.promotedD ++
    h.clearedD ++ h.outputD ++ h.objectD ++ origin ++ expiry ++ candidateLen ++ outputsLen

/-! ## The three states -/

/-- `replays.sort(key=lambda r: r.transition_id)` after an `append` -/
def addReplay (replays : List ReplayRecord) (replay : ReplayRecord) : List ReplayRecord :=
  (replays ++ [replay]).insertionSort (·.transitionId ≤ ·.transitionId)

def preparedState (candidate : Rvfb1State) (replay : ReplayRecord) (beforeDigest : Bytes) : Rvfb1State :=
  { candidate with
    replays := addReplay candidate.replays replay
    prefix_ := { candidate.prefix_ with
      flags := clearFlag candidate.prefix_.flags flagAwaitingComplete
      pendingPhase := 1
      pendingTransitionId := replay.transitionId
      pendingBeforeDigest := beforeDigest
      pendingOutputDigest := replay.outputDigest
      pendingExecutionDigest := replay.executionDigest } }

def promotedState (prepared : Rvfb1State) : Rvfb1State :=
  { prepared with
    prefix_ := { prepared.prefix_ with
      pendingPhase := 2, flags := setFlag prepared.prefix_.flags flagAwaitingComplete } }

def clearedState (promoted : Rvfb1State) : Rvfb1State :=
  { promoted with
    prefix_ := { promoted.prefix_ with
      pendingPhase := 0
      pendingTransitionId := absentKey
      pendingBeforeDigest := absentKey
      pendingOutputDigest := absentKey
      pendingExecutionDigest := absentKey
      flags := clearFlag promoted.prefix_.flags flagAwaitingComplete
      generation := promoted.prefix_.generation + 1 } }

def promotedAndCleared (prepared : Rvfb1State) : Except PyExc (Bytes × Bytes) := do
  let promotedBytes ← encodeRvfb1 (promotedState prepared)
  let clearedBytes ← encodeRvfb1 (clearedState (promotedState prepared))
  return (promotedBytes, clearedBytes)

structure PipelineMeta where
  sendingEpoch : Int
  receivingEpoch : Int
  outputKeyEpoch : Int
  flags : Int
  terminalReason : Int
  pendingPhase : Int
  transitionId : Bytes
  deriving DecidableEq

structure PipelineResult where
  candidateBytes : Bytes
  outputsBytes : Bytes
  intentBytes : Bytes
  info : PipelineMeta
  deriving DecidableEq

def prepareCandidate (before : Rvfb1State) (beforeBytes : Bytes) (candidate : Rvfb1State) (direction : Int)
    (execution inputD objectD outputs : Bytes) (retentionOriginMs metaFlags : Int)
    (outputKeyEpoch : Option Int) : Except PyExc PipelineResult := do
  let beforeD ← stateDigest P 1 beforeBytes
  let outputD := outputDigest P outputs
  let transitionId ← transitionIdDigest P before.prefix_.sessionId before.prefix_.role direction
    before.prefix_.generation execution beforeD
  let prepared := preparedState candidate
    { transitionId, executionDigest := execution, outputDigest := outputD, outputLen := outputs.length
      flags := metaFlags } beforeD
  let candidateBytes ← encodeRvfb1 prepared
  let (promotedBytes, clearedBytes) ← promotedAndCleared prepared
  let preparedD ← stateDigest P 1 candidateBytes
  let promotedD ← stateDigest P 1 promotedBytes
  let clearedD ← stateDigest P 1 clearedBytes
  let header ← encodeRvbj1Header {
    sessionId := before.prefix_.sessionId
    role := before.prefix_.role
    direction
    intentKind := intentNormal
    generation := before.prefix_.generation
    transitionId, execution, inputD, beforeD, preparedD, promotedD, clearedD, outputD, objectD
    retentionOriginMs
    retentionExpiryMs := retentionOriginMs + braidRvorTtlMs
    candidateLen := candidateBytes.length
    outputsLen := outputs.length }
  return {
    candidateBytes
    outputsBytes := outputs
    intentBytes := header ++ candidateBytes ++ outputs
    info := {
      sendingEpoch := prepared.prefix_.braidSendEpoch
      receivingEpoch := prepared.prefix_.braidRecvEpoch
      outputKeyEpoch := outputKeyEpoch.getD 0
      flags := metaFlags
      terminalReason := prepared.prefix_.terminalReason
      pendingPhase := prepared.prefix_.pendingPhase
      transitionId } }

def transitionPrepare (stateBytes inputBytes envBytes : Bytes) (keygenMaterial : Option KeygenMaterial)
    (promoteMaterial : Option PromoteMaterial) : Except PyExc PipelineResult := do
  let before ← decodeRvfb1 stateBytes
  let inp ← decodeRvbi1 inputBytes
  let env ← decodeRvbe1 envBytes
  let transitioned ← transition P X O stateBytes inputBytes envBytes keygenMaterial promoteMaterial
  let candidate ← decodeRvfb1 transitioned.candidateBytes
  let outputs ← outputsOf transitioned
  let execution ← executionDigest P inputBytes envBytes
  prepareCandidate P before stateBytes candidate inp.direction execution (inputDigest P inputBytes)
    (inp.objectDigest.getD absentKey) outputs env.clock transitioned.info.flags
    transitioned.info.outputKeyEpoch

end Rdap.Braid
