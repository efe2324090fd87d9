import Rdap.Braid.Digests
import Rdap.Protocol.Scka

/-!
# The transition of the braid

A send or a receive takes a state to a candidate. Four agents have a path: two of them only
start a chunked transfer, two promote the ratchets with a new output key and confirm that by an
encryption or a decryption.
-/

set_option autoImplicit false

namespace Rdap.Braid
open Python Lib Protocol

def wireHdr : Int := 1
def wireCt1 : Int := 5
def wireCt2 : Int := 6
def agentKeysUnsampled : Int := 0
def agentKeysSampled : Int := 1
def agentEkSentCt1Received : Int := 4
def agentNoHeaderReceived : Int := 5
def agentHeaderReceived : Int := 6
def agentCt1Sampled : Int := 7
def sourceKindHdr : Int := 1
def sourceKindCt1 : Int := 5
def sourceKindCt2 : Int := 6
def roleAlice : Int := 0
def roleBob : Int := 1
def dirA2b : Int := 0
def dirB2a : Int := 1
def maxSkip : Nat := 1000
def maxMkskippedRetained : Nat := 2000

/-- The flags are never negative. -/
def clearFlag (flags : Int) (bit : Nat) : Int :=
  if flags.toNat.testBit bit = true then flags - 2 ^ bit else flags

def setFlag (flags : Int) (bit : Nat) : Int :=
  if flags.toNat.testBit bit = true then flags else flags + 2 ^ bit

/-- What a library outside computes: SHA3-512, and ChaCha20-Poly1305, whose decryption fails on data
that is not authentic. -/
structure Oracles where
  sha3_512 : Bytes → Bytes
  encrypt : Bytes → Bytes → Bytes → Bytes → Bytes
  decrypt : Bytes → Bytes → Bytes → Bytes → Option Bytes

variable (P : Platform) (X : X25519) (O : Oracles)

/-! ## The material -/

structure KeygenMaterial where
  dk : Bytes
  header : Bytes
  ekVector : Bytes
  dk_length : dk.length = 2400
  header_length : header.length = 64
  ekVector_length : ekVector.length = 1152

structure PromoteMaterial where
  sharedSecret : Bytes
  encapsState : Bytes
  ct1 : Bytes
  sharedSecret_length : sharedSecret.length = 32
  encapsState_length : encapsState ≠ [] → encapsState.length = 2080
  ct1_length : ct1 ≠ [] → ct1.length = 960

def mlkemEncapsSharedSecret (header coins : Bytes) : Except PyExc Bytes := do
  orRaise (header.length = 64) (lit "ML-KEM header length")
  orRaise (coins.length = 32) (lit "ML-KEM coins length")
  return (O.sha3_512 (coins ++ header.drop 32)).take 32

def applyKeysUnsampledSend (state : Rvfb1State) (material : KeygenMaterial) (direction : Int) :
    Except PyExc (Rvfb1State × Bytes) := do
  orRaise (state.prefix_.agent = agentKeysUnsampled) (lit "expected KeysUnsampled")
  let ep := state.prefix_.braidAgentEpoch
  let auth ← authState state.prefix_.authRoot state.prefix_.authMacKey
  let tag ← auth.macHdr P ep material.header
  let source := material.header ++ tag
  orRaise (source.length = 96) (lit "hdr source len")
  let payload ← systematicChunk source 0
  let binding ← bindingDigest P direction ep wireHdr 0 payload state.prefix_.sessionId
  let frame ← encodeRvbc1 { epoch := ep, chunkType := wireHdr, index := 0, payload, binding }
  return ({ state with
    tlvs := [⟨1, material.dk⟩, ⟨2, material.header.take 32⟩, ⟨3, material.header.drop 32⟩,
      ⟨4, material.ekVector⟩, ⟨8, material.header⟩]
    activeSend := some {
      direction, epoch := ep, wireType := wireHdr, sourceKind := sourceKindHdr, sourceLen := source.length
      sourceDigest := sendSourceDigest P source, sourceBytes := source, nextSpqrIndex := 1 }
    prefix_ := { state.prefix_ with agent := agentKeysSampled, braidSendEpoch := ep - 1 } }, frame)

def expectedDirection (role op : Int) : Option Int :=
  if role = roleAlice ∧ op = opSend then some dirA2b
  else if role = roleAlice ∧ op = opReceive then some dirB2a
  else if role = roleBob ∧ op = opSend then some dirB2a
  else if role = roleBob ∧ op = opReceive then some dirA2b else none

def validateRoleMode (role op direction : Int) : Except PyExc Unit :=
  orRaise (expectedDirection role op = some direction) (lit "role/op/direction")

def validateChunkContract (frame : Rvbc1) : Except PyExc Unit :=
  if frame.chunkType = 0 ∨ frame.chunkType = 4 then
    orRaise (frame.index = 0 ∧ frame.payload = []) (lit "rvbc1 chunk contract")
  else if frame.chunkType = 1 ∨ frame.chunkType = 2 ∨ frame.chunkType = 3 ∨ frame.chunkType = 5 ∨
      frame.chunkType = 6 then
    orRaise (frame.index ≤ 63 ∧ frame.payload.length = chunkWidth) (lit "rvbc1 chunk contract")
  else valueError (lit "rvbc1 chunk type")

def verifyFrameBinding (frame : Rvbc1) (direction : Int) (sessionId : Bytes) : Except PyExc Unit := do
  let expected ← bindingDigest P direction frame.epoch frame.chunkType frame.index frame.payload sessionId
  orRaise (expected = frame.binding) (lit "binding digest mismatch")

def decodeAndValidateFrame (state : Rvfb1State) (inp : Rvbi1) : Except PyExc Rvbc1 :=
  match inp.frame with
  | none => valueError (lit "receive frame")
  | some bytes => do
    let frame ← decodeRvbc1 bytes
    verifyFrameBinding P frame inp.direction state.prefix_.sessionId
    validateChunkContract frame
    return frame

def applyHdrReceive (state : Rvfb1State) (frame : Rvbc1) : Except PyExc Rvfb1State := do
  orRaise (state.prefix_.agent = agentNoHeaderReceived) (lit "expected NoHeaderReceived")
  let ep := state.prefix_.braidAgentEpoch
  orRaise (frame.epoch = ep ∧ frame.chunkType = wireHdr) (lit "hdr receive frame mismatch")
  match state.inboundSets with
  | [inbound] => do
    orRaise (inbound.sourceKind = sourceKindHdr ∧ inbound.chunks = []) (lit "bob inbound not empty hdr")
    let bitmap ← setBit inbound.bitmap frame.index
    return { state with
      inboundSets := [{ inbound with bitmap, chunks := [⟨frame.index, frame.payload⟩] }]
      prefix_ := { state.prefix_ with braidRecvEpoch := ep - 1 } }
  | _ => valueError (lit "bob inbound sets")

def tlvValue (state : Rvfb1State) (tag : Int) (length : Nat) : Except PyExc Bytes := do
  let value := (state.tlvs.find? fun entry => entry.tag = tag).map TlvEntry.value
  orRaise (value.map List.length = some length) (lit "TLV " ++ intDecimal tag ++ lit " length")
  return value.getD []

def headerFromTlvs (state : Rvfb1State) : Except PyExc Bytes := do
  let rho ← tlvValue state 2 32
  let hek ← tlvValue state 3 32
  return rho ++ hek

/-! ## The ratchets -/

/-- `entry.dh_pub + entry.n.to_bytes(4, "big")` -/
def skippedKey (entry : EcSkippedEntry) : Bytes := entry.dhPub ++ word 4 entry.n

/-- The counters come from a decoder, which reads none below zero. -/
def rvft1ToEc (value : Rvft1) : EcDrState where
  rk := value.ecRk
  dhsPriv := value.ecDhsPriv
  dhsPub := value.ecDhsPub
  dhrPub := if value.ecDhrPresent = 1 then some value.ecDhrPub else none
  cks := if value.ecCkSendPresent = 1 then some value.ecCkSend else none
  ckr := if value.ecCkRecvPresent = 1 then some value.ecCkRecv else none
  ns := value.ecNs.toNat
  nr := value.ecNr.toNat
  pn := value.ecPn.toNat
  mkskipped := KeyedTable.ofRows (value.ecSkipped.map fun entry => (skippedKey entry, entry.messageKey))

/-- `key or bytes(32)` -/
def keyOrZeros (key : Option Bytes) : Bytes := if key.getD [] = [] then absentKey else key.getD []

/-- `int(key is not None)` -/
def presence (key : Option Bytes) : Int := if key = none then 0 else 1

def applyEcToRvft1 (value : Rvft1) (candidate : EcDrState) : Rvft1 :=
  { value with
    ecRk := candidate.rk
    ecDhsPriv := candidate.dhsPriv
    ecDhsPub := candidate.dhsPub
    ecDhrPresent := presence candidate.dhrPub
    ecDhrPub := keyOrZeros candidate.dhrPub
    ecCkSendPresent := presence candidate.cks
    ecCkSend := keyOrZeros candidate.cks
    ecCkRecvPresent := presence candidate.ckr
    ecCkRecv := keyOrZeros candidate.ckr
    ecNs := candidate.ns
    ecNr := candidate.nr
    ecPn := candidate.pn
    ecSkipped := (candidate.mkskipped.rows.insertionSort (·.1 ≤ ·.1)).map fun row =>
      ⟨row.1.take 32, ofBigEndian (row.1.drop 32), row.2⟩ }

def insertSckaChain (chain : List SckaChainEntry) (entry : SckaChainEntry) : List SckaChainEntry :=
  let entered := ((chain.filter fun existing => existing.epoch ≠ entry.epoch) ++ [entry]).insertionSort
    (·.epoch ≤ ·.epoch)
  if maxSckaChain < entered.length then entered.tail else entered

def promoteSckaSend (value : Rvft1) (epoch : Int) (outputKey : Bytes) : Except PyExc Rvft1 := do
  let (root, chainKey) ← kdfSckaRk P value.sckaRk outputKey
  return { value with
    sckaRk := root
    sckaSendingEpoch := epoch
    sckaSendChain := insertSckaChain value.sckaSendChain ⟨epoch, chainKey, 0⟩ }

def promoteSckaReceive (value : Rvft1) (epoch : Int) (outputKey : Bytes) : Except PyExc Rvft1 := do
  let (root, chainKey) ← kdfSckaRk P value.sckaRk outputKey
  return { value with
    sckaRk := root
    sckaReceivingEpoch := epoch
    sckaRecvChain := insertSckaChain value.sckaRecvChain ⟨epoch, chainKey, 0⟩ }

/-! ## The confirmation -/

def transcriptAddrBinding (sessionId : Bytes) (party : Int) (certDigest identityPub : Bytes) : Bytes :=
  P.sha256 (byteLit "ATSAM/v2/full-braid/transcript-addr" ++ sessionId ++ u8 party ++ certDigest ++
    identityPub)

def rvba1Magic : Bytes := [0x52, 0x56, 0x42, 0x41, 0x31, 0, 0, 0]

/-- The length that the source asserts in the end is that of all of them. -/
def expectedRvba1 (sessionId : Bytes) (direction : Int) (evidence : AdmittedTrustEvidence) : Bytes :=
  rvba1Magic ++ word 2 1 ++ P.sha256 (byteLit "ATSAM/hybrid-ratchet/v2") ++ sessionId ++ word 2 1 ++
    word 2 4 ++ u8 direction ++ u8 0 ++
    transcriptAddrBinding P sessionId 0 evidence.initiatorCertDigest evidence.initiatorIdentityPub ++
    transcriptAddrBinding P sessionId 1 evidence.responderCertDigest evidence.responderIdentityPub ++
    (if direction = dirA2b then evidence.initiatorCertDigest else evidence.responderCertDigest)

def validateRvba1 (state : Rvfb1State) (inp : Rvbi1) (env : Rvbe1) : Except PyExc Unit :=
  match env.admittedTrust with
  | none => valueError (lit "admitted trust required")
  | some evidence =>
    orRaise (inp.mutation.aad = expectedRvba1 P state.prefix_.sessionId inp.direction evidence)
      (lit "RVBA1 admitted trust")

def effectiveAd (rvba1 rvch1 rvbc1 : Bytes) : Except PyExc Bytes := do
  let rvba1 ← encodeLong rvba1
  let rvch1 ← encodeLong rvch1
  let rvbc1 ← encodeLong rvbc1
  return rvba1 ++ rvch1 ++ rvbc1

def checkEcMkOracle (mutation : Rvbm1) (messageKey : Bytes) : Except PyExc Unit :=
  if mutation.ecMkOracleLen = 0 then
    orRaise (mutation.ecMkOracle = absentKey) (lit "EC message-key oracle")
  else if mutation.ecMkOracleLen = 32 then
    orRaise (mutation.ecMkOracle = messageKey) (lit "EC message-key oracle mismatch")
  else valueError (lit "EC message-key oracle length")

def sendRvch1 (value : Rvft1) (direction epoch : Int) : Rvch1 where
  ecDhPub := value.ecDhsPub
  ecPn := value.ecPn
  ecN := value.ecNs
  sckaEpoch := epoch
  sckaPn := value.sckaSendPn
  sckaN := ((value.sckaSendChain.find? fun entry => entry.epoch = epoch).map SckaChainEntry.n).getD 0
  direction := direction

/-- `TR_PROTOCOL_INFO` -/
def trProtocolInfo : Bytes := byteLit "ATSAM/hybrid-ratchet/v2" ++ [0] ++ byteLit "TR"

def kdfHybrid (ecMk sckaMk : Bytes) : Except PyExc (Bytes × Bytes) := do
  orRaise (ecMk.length = 32 ∧ sckaMk.length = 32) (lit "message keys must be 32 bytes")
  let okm := hkdfSha256 P ecMk sckaMk trProtocolInfo 44
  return (okm.take 32, okm.drop 32)

/-- `aead_open` -/
def aeadOpen (key nonce ciphertext aad : Bytes) : Except PyExc Bytes :=
  match O.decrypt key nonce ciphertext aad with
  | some plaintext => .ok plaintext
  | none => .error ⟨.invalidTag, []⟩

/-- `_confirm_send` up to the comparison, with the ratchets that it is about to write. -/
def sealCompare (state : Rvfb1State) (inp : Rvbi1) (env : Rvbe1) (frame : Rvbc1) (outputKey : Bytes)
    (epoch : Int) : Except PyExc (Rvft1 × Bytes × Bytes) := do
  let mutation := inp.mutation
  orRaise (mutation.needsAead = 1 ∧ mutation.mode = modeSealCompare) (lit "send AEAD mutation")
  validateRvba1 P state inp env
  let tr ← decodeRvft1 state.trBytes
  let ch := sendRvch1 tr inp.direction epoch
  let (ecCandidate, header, ecMk) ← ecDrEncrypt P (rvft1ToEc tr)
  orRaise (header.dhPub = ch.ecDhPub ∧ (header.pn : Int) = ch.ecPn ∧ (header.n : Int) = ch.ecN)
    (lit "send RVCH1 context")
  let chBytes ← encodeRvch1 ch
  let frameBytes ← encodeRvbc1 frame
  let aad ← effectiveAd mutation.aad chBytes frameBytes
  checkEcMkOracle mutation ecMk
  let (key, nonce) ← kdfHybrid P ecMk outputKey
  let sealed_ := O.encrypt key nonce mutation.body aad
  orRaise (mutation.expectedCt = some sealed_) (lit "AEAD seal comparison")
  return (applyEcToRvft1 tr ecCandidate, chBytes, sealed_)

def confirmSend (state : Rvfb1State) (inp : Rvbi1) (env : Rvbe1) (frame : Rvbc1) (outputKey : Bytes)
    (epoch : Int) : Except PyExc (Rvfb1State × Bytes × Bytes) := do
  let (tr, chBytes, sealed_) ← sealCompare P O state inp env frame outputKey epoch
  let trBytes ← encodeRvft1 tr
  return ({ state with trBytes }, chBytes, sealed_)

def materializeEcDhPriv (seed sessionId : Bytes) (generation : Int) : Except PyExc Bytes := do
  orRaise (seed.length = 32) (lit "EC DH seed length")
  let generation ← toBytes 8 generation
  let value := hmacSha256 P seed (byteLit "ATSAM/v2/full-braid/ec-dh-seed" ++ sessionId ++ generation)
  let _ ← x25519Public X value
  return value

/-- `_materialize_ec_dh_priv(...) if env.ec_dh_seed else None` -/
def newLocalPriv (env : Rvbe1) (state : Rvfb1State) : Except PyExc (Option Bytes) :=
  if env.ecDhSeed = [] then .ok none
  else do
    let value ← materializeEcDhPriv P X env.ecDhSeed state.prefix_.sessionId state.prefix_.generation
    return some value

/-- The part of `_confirm_receive` that follows the checks of the channel header, up to the plaintext. -/
def openWith (state : Rvfb1State) (inp : Rvbi1) (env : Rvbe1) (frame : Rvbc1) (outputKey : Bytes)
    (ch : Rvch1) (tr : Rvft1) : Except PyExc EcDrState := do
  let localPriv ← newLocalPriv P X env state
  let (ecCandidate, ecMk) ← ecDrDecrypt P X maxSkip maxMkskippedRetained localPriv (rvft1ToEc tr)
    { dhPub := ch.ecDhPub, pn := ch.ecPn.toNat, n := ch.ecN.toNat }
  let chBytes ← encodeRvch1 ch
  let frameBytes ← encodeRvbc1 frame
  let aad ← effectiveAd inp.mutation.aad chBytes frameBytes
  checkEcMkOracle inp.mutation ecMk
  let (key, nonce) ← kdfHybrid P ecMk outputKey
  let plaintext ← aeadOpen O key nonce inp.mutation.body aad
  orRaise (plaintext.length ≤ braidMaxAeadPlaintextBytes) (lit "AEAD plaintext length")
  return ecCandidate

/-- `_confirm_receive` up to the plaintext, with the ratchets before and after it. -/
def openChecked (state : Rvfb1State) (inp : Rvbi1) (env : Rvbe1) (frame : Rvbc1) (outputKey : Bytes)
    (epoch : Int) : Except PyExc (Rvft1 × EcDrState) :=
  match inp.ch with
  | none => valueError (lit "receive AEAD mutation")
  | some ch => do
    orRaise (inp.mutation.needsAead = 1 ∧ inp.mutation.mode = modeOpen) (lit "receive AEAD mutation")
    validateRvba1 P state inp env
    orRaise (inp.expectedCh = none ∨ inp.expectedCh = some ch) (lit "receive expected RVCH1")
    orRaise (ch.direction = inp.direction ∧ ch.sckaEpoch = epoch) (lit "receive RVCH1 context")
    let tr ← decodeRvft1 state.trBytes
    orRaise (¬(tr.ecDhrPresent = 1 ∧ ch.ecDhPub = tr.ecDhrPub ∧ ch.ecN < tr.ecNr))
      (lit "receive EC counter rewind")
    let ecCandidate ← openWith P X O state inp env frame outputKey ch tr
    return (tr, ecCandidate)

def confirmReceive (state : Rvfb1State) (inp : Rvbi1) (env : Rvbe1) (frame : Rvbc1) (outputKey : Bytes)
    (epoch : Int) : Except PyExc Rvfb1State := do
  let (tr, ecCandidate) ← openChecked P X O state inp env frame outputKey epoch
  let trBytes ← encodeRvft1 (applyEcToRvft1 tr ecCandidate)
  return { state with trBytes }

/-! ## The paths that promote -/

/-- `_apply_header_received_send` up to the confirmation: the state, the frame and the output key. -/
def encaps1 (state : Rvfb1State) (inp : Rvbi1) (env : Rvbe1) (material : PromoteMaterial) :
    Except PyExc (Rvfb1State × Rvbc1 × Bytes) := do
  orRaise (state.prefix_.agent = agentHeaderReceived) (lit "expected HeaderReceived")
  orRaise (material.encapsState ≠ [] ∧ material.ct1 ≠ []) (lit "Encaps1 material required")
  let header ← headerFromTlvs state
  let derivedSecret ← mlkemEncapsSharedSecret O header env.encapsCoins
  orRaise (derivedSecret = material.sharedSecret) (lit "Encaps1 shared-secret oracle mismatch")
  orRaise (material.encapsState.drop (material.encapsState.length - 32) = env.encapsCoins)
    (lit "Encaps1 state randomness mismatch")
  let epoch := state.prefix_.braidAgentEpoch
  let outputKey ← kdfOk P material.sharedSecret epoch
  let auth ← authState state.prefix_.authRoot state.prefix_.authMacKey
  let auth ← auth.update P epoch outputKey
  let rho ← tlvValue state 2 32
  let hek ← tlvValue state 3 32
  let (frame, state) ← emitActive P { state with
    tlvs := [⟨2, rho⟩, ⟨3, hek⟩, ⟨5, material.encapsState⟩, ⟨6, material.ct1⟩]
    activeSend := some (newActiveSend P inp.direction epoch wireCt1 sourceKindCt1 material.ct1)
    prefix_ := { state.prefix_ with
      authRoot := auth.rootKey, authMacKey := auth.macKey, agent := agentCt1Sampled } }
  return (state, frame, outputKey)

def applyHeaderReceivedSend (state : Rvfb1State) (inp : Rvbi1) (env : Rvbe1) (material : PromoteMaterial) :
    Except PyExc (Rvfb1State × Rvbc1 × Bytes × Bytes × Int) := do
  let epoch := state.prefix_.braidAgentEpoch
  let (state, frame, outputKey) ← encaps1 P O state inp env material
  let (state, chOut, sealedCt) ← confirmSend P O state inp env frame outputKey epoch
  let tr ← decodeRvft1 state.trBytes
  let tr ← promoteSckaSend P tr epoch outputKey
  let trBytes ← encodeRvft1 tr
  return ({ state with trBytes, prefix_ := { state.prefix_ with braidSendEpoch := epoch - 1 } }, frame,
    chOut, sealedCt, epoch)

/-- `_apply_ek_sent_ct1_received_receive` up to the confirmation: the state and the output key. -/
def acceptCt2 (state : Rvfb1State) (inp : Rvbi1) (frame : Rvbc1) (material : PromoteMaterial) :
    Except PyExc (Rvfb1State × Bytes) := do
  orRaise (state.prefix_.agent = agentEkSentCt1Received) (lit "expected EkSentCt1Received")
  let epoch := state.prefix_.braidAgentEpoch
  orRaise (frame.epoch = epoch ∧ frame.chunkType = wireCt2) (lit "CT2 receive frame mismatch")
  let (state, source) := insertSystematicFrame state inp.direction frame sourceKindCt2
  let source ← source
  orRaise (source.map List.length = some 160) (lit "CT2 source incomplete")
  let ct2 := (source.getD []).take 128
  let expectedMac := (source.getD []).drop 128
  let _ ← tlvValue state 1 2400
  let ct1 ← tlvValue state 6 960
  let outputKey ← kdfOk P material.sharedSecret epoch
  let auth ← authState state.prefix_.authRoot state.prefix_.authMacKey
  let auth ← auth.update P epoch outputKey
  let mac ← auth.macCt P epoch (ct1 ++ ct2)
  orRaise (mac = expectedMac) (lit "CT2 authenticator")
  return ({ state with
    prefix_ := { state.prefix_ with authRoot := auth.rootKey, authMacKey := auth.macKey } }, outputKey)

def applyEkSentCt1ReceivedReceive (state : Rvfb1State) (inp : Rvbi1) (env : Rvbe1) (frame : Rvbc1)
    (material : PromoteMaterial) : Except PyExc (Rvfb1State × Int) := do
  let epoch := state.prefix_.braidAgentEpoch
  let (state, outputKey) ← acceptCt2 P state inp frame material
  let state ← confirmReceive P X O state inp env frame outputKey epoch
  let tr ← decodeRvft1 state.trBytes
  let tr ← promoteSckaReceive P tr epoch outputKey
  let trBytes ← encodeRvft1 tr
  let nextEpoch := epoch + 1
  let inbound ← emptyInboundSet inp.direction nextEpoch sourceKindHdr
  return ({ state with
    trBytes
    prefix_ := { state.prefix_ with
      braidAgentEpoch := nextEpoch, braidRecvEpoch := epoch - 1, agent := agentNoHeaderReceived
      flags := clearFlag state.prefix_.flags 2 }
    tlvs := []
    activeSend := none
    inboundSets := [inbound] }, epoch)

/-! ## The transition -/

/-- What a path leaves behind: the candidate, and the outputs of a send. -/
structure Applied where
  candidate : Rvfb1State
  frameBytes : Option Bytes := none
  chOutBytes : Option Bytes := none
  sealedCt : Option Bytes := none
  outputKeyEpoch : Option Int := none

def applySend (candidate : Rvfb1State) (inp : Rvbi1) (env : Rvbe1) (keygenMaterial : Option KeygenMaterial)
    (promoteMaterial : Option PromoteMaterial) : Except PyExc Applied :=
  if candidate.prefix_.agent = agentKeysUnsampled then
    match keygenMaterial with
    | none => valueError (lit "keygen material required for send")
    | some material => do
      orRaise (env.keygenSeed.length = 64) (lit "keygen seed required")
      let (candidate, frameBytes) ← applyKeysUnsampledSend P candidate material inp.direction
      return { candidate, frameBytes := some frameBytes }
  else if candidate.prefix_.agent = agentHeaderReceived then
    match promoteMaterial with
    | none => valueError (lit "promote material required for send")
    | some material => do
      let (candidate, frame, chOut, sealedCt, epoch) ←
        applyHeaderReceivedSend P O candidate inp env material
      let frameBytes ← encodeRvbc1 frame
      return { candidate, frameBytes := some frameBytes, chOutBytes := some chOut, sealedCt := some sealedCt
               outputKeyEpoch := some epoch }
  else valueError (lit "unsupported send agent")

def applyReceive (candidate : Rvfb1State) (inp : Rvbi1) (env : Rvbe1)
    (promoteMaterial : Option PromoteMaterial) : Except PyExc Applied := do
  let frame ← decodeAndValidateFrame P candidate inp
  if candidate.prefix_.agent = agentNoHeaderReceived then
    let candidate ← applyHdrReceive candidate frame
    return { candidate }
  else if candidate.prefix_.agent = agentEkSentCt1Received then
    match promoteMaterial with
    | none => valueError (lit "promote material required for receive")
    | some material =>
      let (candidate, epoch) ← applyEkSentCt1ReceivedReceive P X O candidate inp env frame material
      return { candidate, outputKeyEpoch := some epoch }
  else valueError (lit "unsupported receive agent")

def applyOp (candidate : Rvfb1State) (inp : Rvbi1) (env : Rvbe1) (keygenMaterial : Option KeygenMaterial)
    (promoteMaterial : Option PromoteMaterial) : Except PyExc Applied :=
  if inp.op = opSend then applySend P O candidate inp env keygenMaterial promoteMaterial
  else if inp.op = opReceive then applyReceive P X O candidate inp env promoteMaterial
  else valueError (lit "unsupported op")

structure TransitionMeta where
  sendingEpoch : Int
  receivingEpoch : Int
  outputKeyEpoch : Option Int
  flags : Int := 0
  deriving DecidableEq

/-- The disposition is always `accept`. -/
structure TransitionResult where
  candidateBytes : Bytes
  frameBytes : Option Bytes
  chOutBytes : Option Bytes
  sealedCt : Option Bytes
  info : TransitionMeta
  deriving DecidableEq

/-- The state, the input and the environment of a transition, decoded and found canonical. -/
def openInputs (stateBytes inputBytes envBytes : Bytes) : Except PyExc (Rvfb1State × Rvbi1 × Rvbe1) := do
  let before ← decodeRvfb1 stateBytes
  let encoded ← encodeRvfb1 before
  orRaise (encoded = stateBytes) (lit "before state not canonical")
  orRaise (before.prefix_.pendingPhase = 0) (lit "pending phase")
  let inp ← decodeRvbi1 inputBytes
  let encoded ← encodeRvbi1 inp
  orRaise (encoded = inputBytes) (lit "input not canonical")
  let env ← decodeRvbe1 envBytes
  let encoded ← encodeRvbe1 env
  orRaise (encoded = envBytes) (lit "env not canonical")
  validateRoleMode before.prefix_.role inp.op inp.direction
  return (before, inp, env)

def transition (stateBytes inputBytes envBytes : Bytes) (keygenMaterial : Option KeygenMaterial)
    (promoteMaterial : Option PromoteMaterial) : Except PyExc TransitionResult := do
  let (_, inp, env) ← openInputs stateBytes inputBytes envBytes
  let candidate ← decodeRvfb1 stateBytes
  let applied ← applyOp P X O candidate inp env keygenMaterial promoteMaterial
  let candidateBytes ← encodeRvfb1 applied.candidate
  return {
    candidateBytes
    frameBytes := applied.frameBytes
    chOutBytes := applied.chOutBytes
    sealedCt := applied.sealedCt
    info := {
      sendingEpoch := applied.candidate.prefix_.braidSendEpoch
      receivingEpoch := applied.candidate.prefix_.braidRecvEpoch
      outputKeyEpoch := applied.outputKeyEpoch } }

end Rdap.Braid
