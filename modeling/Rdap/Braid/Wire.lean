import Rdap.Braid.WireReader

/-!
# The wire codecs

The channel header, the mutation, the chunk, the input and the environment of a transition, as
they are written and read. Encoders and decoders make their checks in different places.
-/

set_option autoImplicit false

namespace Rdap.Braid
open Python Lib

/-! ## RVCH1: the channel header -/

def rvch1Magic : Bytes := [0x52, 0x56, 0x43, 0x48, 0x31, 0, 0, 0]
def rvch1Schema : Int := 1
def rvch1Len : Nat := 68

structure Rvch1 where
  ecDhPub : Bytes
  ecPn : Int
  ecN : Int
  sckaEpoch : Int
  sckaPn : Int
  sckaN : Int
  direction : Int
  deriving DecidableEq

/-- The length that the source asserts in the end is that of every encoding. -/
def encodeRvch1 (value : Rvch1) : Except PyExc Bytes := do
  orRaise (value.ecDhPub.length = 32) (lit "rvch1 ec_dh_pub")
  orRaise (value.direction = 0 ∨ value.direction = 1) (lit "rvch1 direction")
  let schema ← toBytes 2 rvch1Schema
  let ecPn ← toBytes 4 value.ecPn
  let ecN ← toBytes 4 value.ecN
  let sckaEpoch ← toBytes 8 value.sckaEpoch
  let sckaPn ← toBytes 4 value.sckaPn
  let sckaN ← toBytes 4 value.sckaN
  return rvch1Magic ++ (schema ++ (value.ecDhPub ++ (ecPn ++ (ecN ++ (sckaEpoch ++ (sckaPn ++ (sckaN ++
    (u8 value.direction ++ u8 0))))))))

def decodeRvch1 (data : Bytes) : Except PyExc Rvch1 := do
  orRaise (data.length = rvch1Len) (lit "rvch1 bad length")
  expectMagic data rvch1Magic
  let (schema, r) ← readWord 2 (data.drop 8)
  orRaise (schema = rvch1Schema) (lit "rvch1 bad schema")
  let (ecDhPub, r) ← readArray32 r
  let (ecPn, r) ← readWord 4 r
  let (ecN, r) ← readWord 4 r
  let (sckaEpoch, r) ← readWord 8 r
  let (sckaPn, r) ← readWord 4 r
  let (sckaN, r) ← readWord 4 r
  let (direction, r) ← readWord 1 r
  let (reserved0, r) ← readWord 1 r
  orRaise (reserved0 = 0) (lit "rvch1 reserved0")
  rejectTrailing r
  return { ecDhPub, ecPn, ecN, sckaEpoch, sckaPn, sckaN, direction }

/-! ## RVBM1: the mutation -/

def rvbm1Magic : Bytes := [0x52, 0x56, 0x42, 0x4d, 0x31, 0, 0, 0]
def rvbm1Schema : Int := 1
def rvba1Len : Nat := 176
def braidMaxAeadPlaintextBytes : Nat := 8192
def braidMaxAeadCiphertextBytes : Nat := 8208
def braidMinAeadCiphertextBytes : Nat := 16
def modeSealCompare : Int := 0
def modeOpen : Int := 1

structure Rvbm1 where
  needsAead : Int := 0
  ecMkOracleLen : Int := 0
  ecMkOracle : Bytes := List.replicate 32 0
  aad : Bytes := []
  mode : Int := 0
  body : Bytes := []
  expectedCt : Option Bytes := none
  deriving DecidableEq

def validateRvbm1Contract (body : Rvbm1) : Except PyExc Unit := do
  orRaise (body.needsAead ≤ 1) (lit "rvbm1 needs_aead")
  if body.needsAead = 0 then
    orRaise (body.ecMkOracleLen = 0 ∧ body.ecMkOracle = List.replicate 32 0 ∧ body.aad = [] ∧
      body.mode = 0 ∧ body.body = [] ∧ body.expectedCt = none) (lit "rvbm1 needs_aead=0 contract")
  else
    orRaise (body.ecMkOracleLen = 0 ∨ body.ecMkOracleLen = 32) (lit "rvbm1 oracle_len")
    orRaise (body.aad.length = rvba1Len) (lit "rvbm1 aad_len")
    orRaise (body.mode ≤ 1) (lit "rvbm1 mode")
    if body.mode = modeSealCompare then
      orRaise (body.body.length ≤ braidMaxAeadPlaintextBytes) (lit "rvbm1 body_len")
      match body.expectedCt with
      | none => valueError (lit "rvbm1 missing expected_ct")
      | some ct => orRaise (ct.length = body.body.length + 16) (lit "rvbm1 expected_ct_len")
    else if body.mode = modeOpen then
      orRaise (braidMinAeadCiphertextBytes ≤ body.body.length ∧
        body.body.length ≤ braidMaxAeadCiphertextBytes) (lit "rvbm1 body_len")
      orRaise (body.expectedCt = none) (lit "rvbm1 unexpected expected_ct")
    else valueError (lit "rvbm1 mode")

/-- The last section, which only a sealing mutation has. -/
def encodeExpectedCt (body : Rvbm1) : Except PyExc Bytes :=
  match body.expectedCt with
  | some ct =>
    if body.needsAead = 1 ∧ body.mode = modeSealCompare then do
      let length ← toBytes 4 ct.length
      return length ++ ct
    else .ok []
  | none => .ok []

def encodeRvbm1 (body : Rvbm1) : Except PyExc Bytes := do
  validateRvbm1Contract body
  let schema ← toBytes 2 rvbm1Schema
  let oracleLen ← toBytes 2 body.ecMkOracleLen
  let aadLen ← toBytes 2 body.aad.length
  let bodyLen ← toBytes 4 body.body.length
  let expectedCt ← encodeExpectedCt body
  return rvbm1Magic ++ (schema ++ (u8 body.needsAead ++ (u8 0 ++ (oracleLen ++ (body.ecMkOracle ++
    (aadLen ++ (body.aad ++ (u8 body.mode ++ (bodyLen ++ (body.body ++ expectedCt))))))))))

def readExpectedCt (needs mode : Int) (r : Bytes) : Except PyExc (Option Bytes × Bytes) :=
  if needs = 1 ∧ mode = modeSealCompare then do
    let (ctLen, r) ← readWord 4 r
    let (ct, r) ← readBytes ctLen r
    return (some ct, r)
  else .ok (none, r)

def decodeRvbm1 (data : Bytes) : Except PyExc Rvbm1 := do
  expectMagic data rvbm1Magic
  let (schema, r) ← readWord 2 (data.drop 8)
  orRaise (schema = rvbm1Schema) (lit "rvbm1 bad schema")
  let (needs, r) ← readWord 1 r
  let (reserved0, r) ← readWord 1 r
  orRaise (reserved0 = 0) (lit "rvbm1 reserved0")
  let (oracleLen, r) ← readWord 2 r
  let (oracle, r) ← readBytes 32 r
  let (aadLen, r) ← readWord 2 r
  let (aad, r) ← readBytes aadLen r
  let (mode, r) ← readWord 1 r
  let (bodyLen, r) ← readWord 4 r
  let (body, r) ← readBytes bodyLen r
  let (expectedCt, r) ← readExpectedCt needs mode r
  rejectTrailing r
  let parsed : Rvbm1 := {
    needsAead := needs, ecMkOracleLen := oracleLen, ecMkOracle := oracle, aad, mode, body, expectedCt }
  validateRvbm1Contract parsed
  return parsed

/-! ## RVBC1: the chunk -/

def rvbc1Magic : Bytes := [0x52, 0x56, 0x42, 0x43, 0x31, 0, 0, 0]
def rvbc1MinLen : Nat := 55
def rvbc1MaxLen : Nat := 8247
def rvbc1HeaderLen : Nat := 23
def rvbc1MaxPayload : Nat := rvbc1MaxLen - rvbc1HeaderLen - 32

structure Rvbc1 where
  epoch : Int
  chunkType : Int
  index : Int
  payload : Bytes
  binding : Bytes
  deriving DecidableEq

def Rvbc1.encodedLen (self : Rvbc1) : Nat := rvbc1HeaderLen + self.payload.length + 32

def encodeRvbc1 (chunk : Rvbc1) : Except PyExc Bytes := do
  orRaise (chunk.payload.length ≤ rvbc1MaxPayload) (lit "rvbc1 payload too large")
  orRaise (rvbc1MinLen ≤ chunk.encodedLen ∧ chunk.encodedLen ≤ rvbc1MaxLen)
    (lit "rvbc1 length out of range")
  orRaise (chunk.binding.length = 32) (lit "binding must be 32")
  let epoch ← toBytes 8 chunk.epoch
  let index ← toBytes 4 chunk.index
  let payloadLen ← toBytes 2 chunk.payload.length
  return rvbc1Magic ++ (epoch ++ (u8 chunk.chunkType ++ (index ++ (payloadLen ++ (chunk.payload ++
    chunk.binding)))))

def decodeRvbc1 (data : Bytes) : Except PyExc Rvbc1 := do
  orRaise (rvbc1MinLen ≤ data.length ∧ data.length ≤ rvbc1MaxLen) (lit "rvbc1 length out of range")
  expectMagic data rvbc1Magic
  let (epoch, r) ← readWord 8 (data.drop 8)
  let (chunkType, r) ← readWord 1 r
  let (index, r) ← readWord 4 r
  let (plen, r) ← readWord 2 r
  let (payload, r) ← readBytes plen r
  let (binding, r) ← readArray32 r
  rejectTrailing r
  return { epoch, chunkType, index, payload, binding }

/-! ## RVBI1: the input of a transition -/

def rvbi1Magic : Bytes := [0x52, 0x56, 0x42, 0x49, 0x31, 0, 0, 0]
def rvbi1Schema : Int := 1
def opSend : Int := 0
def opReceive : Int := 1

structure Rvbi1 where
  op : Int
  direction : Int
  ch : Option Rvch1
  expectedCh : Option Rvch1
  objectDigest : Option Bytes
  frame : Option Bytes
  mutation : Rvbm1
  deriving DecidableEq

def validateRvbi1Contract (inp : Rvbi1) : Except PyExc Unit := do
  orRaise (inp.op ≤ opReceive) (lit "rvbi1 op")
  if inp.op = opSend then
    orRaise (inp.ch = none ∧ inp.expectedCh = none ∧ inp.objectDigest = none ∧ inp.frame = none)
      (lit "rvbi1 send field contract")
  else if inp.op = opReceive then
    orRaise (inp.frame ≠ none) (lit "rvbi1 receive missing frame")
    if inp.mutation.needsAead = 1 then
      orRaise (inp.ch ≠ none ∧ inp.objectDigest ≠ none) (lit "rvbi1 receive aead contract")
    else orRaise (inp.ch = none ∧ inp.objectDigest ≠ none) (lit "rvbi1 receive no-aead contract")

/-- An optional section: a flag, a reserved byte, and what `encode` makes of the value. -/
def encodePresent {α : Type} (encode : α → Except PyExc Bytes) : Option α → Except PyExc Bytes
  | none => .ok (u8 0 ++ u8 0)
  | some a => do
    let bytes ← encode a
    return u8 1 ++ (u8 0 ++ bytes)

def encodeDigest (digest : Bytes) : Except PyExc Bytes := do
  orRaise (digest.length = 32) (lit "rvbi1 object_digest")
  return digest

/-- The frame of a received chunk, which has to be one. -/
def encodeFrame (inp : Rvbi1) : Except PyExc Bytes :=
  match inp.frame with
  | some frame =>
    if inp.op = opReceive then do
      let _ ← decodeRvbc1 frame
      let length ← toBytes 4 frame.length
      return length ++ frame
    else .ok []
  | none => .ok []

def encodeRvbi1 (inp : Rvbi1) : Except PyExc Bytes := do
  validateRvbi1Contract inp
  let schema ← toBytes 2 rvbi1Schema
  let reserved0 ← toBytes 2 0
  let ch ← encodePresent encodeRvch1 inp.ch
  let expectedCh ← encodePresent encodeRvch1 inp.expectedCh
  let objectDigest ← encodePresent encodeDigest inp.objectDigest
  let frame ← encodeFrame inp
  let mutation ← encodeRvbm1 inp.mutation
  return rvbi1Magic ++ (schema ++ (u8 inp.op ++ (u8 inp.direction ++ (reserved0 ++ (ch ++ (expectedCh ++
    (objectDigest ++ (frame ++ mutation))))))))

/-- An optional section; `reserved` and `flag` are the messages for its first two bytes. -/
def readPresent {α : Type} (read : Bytes → Except PyExc (α × Bytes)) (reserved flag : PyStr) (r : Bytes) :
    Except PyExc (Option α × Bytes) := do
  let (present, r) ← readWord 1 r
  let (reservedByte, r) ← readWord 1 r
  orRaise (reservedByte = 0) reserved
  if present = 1 then
    let (a, r) ← read r
    return (some a, r)
  else if present = 0 then return (none, r)
  else valueError flag

/-- `decode_rvch1(r.read_bytes(RVCH1_LEN))` -/
def readRvch1 (r : Bytes) : Except PyExc (Rvch1 × Bytes) := do
  let (bytes, r) ← readBytes rvch1Len r
  let value ← decodeRvch1 bytes
  return (value, r)

def readFrame (op : Int) (r : Bytes) : Except PyExc (Option Bytes × Bytes) :=
  if op = opReceive then do
    let (frameLen, r) ← readWord 4 r
    orRaise (frameLen ≠ 0) (lit "rvbi1 frame_len zero")
    orRaise (rvbc1MinLen ≤ frameLen ∧ frameLen ≤ rvbc1MaxLen) (lit "rvbi1 frame_len range")
    let (frameBytes, r) ← readBytes frameLen r
    let _ ← decodeRvbc1 frameBytes
    return (some frameBytes, r)
  else .ok (none, r)

/-- The mutation takes the rest of the data; what its encoding leaves over is trailing. -/
def decodeRvbi1 (data : Bytes) : Except PyExc Rvbi1 := do
  expectMagic data rvbi1Magic
  let (schema, r) ← readWord 2 (data.drop 8)
  orRaise (schema = rvbi1Schema) (lit "rvbi1 bad schema")
  let (op, r) ← readWord 1 r
  let (direction, r) ← readWord 1 r
  let (reserved0, r) ← readWord 2 r
  orRaise (reserved0 = 0) (lit "rvbi1 reserved0")
  let (ch, r) ← readPresent readRvch1 (lit "rvbi1 reserved1") (lit "rvbi1 ch_present") r
  let (expectedCh, r) ←
    readPresent readRvch1 (lit "rvbi1 reserved2") (lit "rvbi1 expected_ch_present") r
  let (objectDigest, r) ←
    readPresent readArray32 (lit "rvbi1 reserved3") (lit "rvbi1 object_digest_present") r
  let (frame, r) ← readFrame op r
  let mutation ← decodeRvbm1 r
  let wire ← encodeRvbm1 mutation
  orRaise (r.length = wire.length) (lit "trailing bytes")
  let inp : Rvbi1 := { op, direction, ch, expectedCh, objectDigest, frame, mutation }
  validateRvbi1Contract inp
  return inp

/-! ## RVBE1: the environment -/

def rvbe1Magic : Bytes := [0x52, 0x56, 0x42, 0x45, 0x31, 0, 0, 0]
def rvbe1Schema : Int := 2
def admittedTrustLen : Nat := 128
def braidMaxPayload : Int := 8192
def braidMaxChunksPerEpoch : Int := 64
def braidMaxCanonicalStateBytes : Int := 262144
def braidMaxReplayEntries : Int := 64
def braidMaxReplayBytes : Int := 8192

structure AdmittedTrustEvidence where
  initiatorCertDigest : Bytes
  initiatorIdentityPub : Bytes
  responderCertDigest : Bytes
  responderIdentityPub : Bytes
  deriving DecidableEq

def AdmittedTrustEvidence.encode (self : AdmittedTrustEvidence) : Except PyExc Bytes := do
  let out := self.initiatorCertDigest ++ (self.initiatorIdentityPub ++ (self.responderCertDigest ++
    self.responderIdentityPub))
  orRaise (out.length = admittedTrustLen) (lit "admitted_trust must be 128 bytes")
  return out

structure Rvbe1 where
  clock : Int
  capPayload : Int
  capChunks : Int
  capState : Int
  capReplayEntries : Int
  capReplayBytes : Int
  keygenSeed : Bytes
  encapsCoins : Bytes
  ecDhSeed : Bytes
  admittedTrust : Option AdmittedTrustEvidence
  deriving DecidableEq

def validateRvbe1SeedLens (env : Rvbe1) : Except PyExc Unit := do
  orRaise (env.keygenSeed.length = 0 ∨ env.keygenSeed.length = 64) (lit "rvbe1 keygen_seed len")
  orRaise (env.encapsCoins.length = 0 ∨ env.encapsCoins.length = 32) (lit "rvbe1 encaps_coins len")
  orRaise (env.ecDhSeed.length = 0 ∨ env.ecDhSeed.length = 32) (lit "rvbe1 ec_dh_seed len")

def validateRvbe1Caps (env : Rvbe1) : Except PyExc Unit := do
  orRaise (env.capPayload ≤ braidMaxPayload) (lit "rvbe1 cap_payload")
  orRaise (env.capChunks ≤ braidMaxChunksPerEpoch) (lit "rvbe1 cap_chunks")
  orRaise (env.capState ≤ braidMaxCanonicalStateBytes) (lit "rvbe1 cap_state")
  orRaise (env.capReplayEntries ≤ braidMaxReplayEntries) (lit "rvbe1 cap_replay_entries")
  orRaise (env.capReplayBytes ≤ braidMaxReplayBytes) (lit "rvbe1 cap_replay_bytes")
  validateRvbe1SeedLens env

/-- A byte string behind its length in two bytes. -/
def encodeSized (bytes : Bytes) : Except PyExc Bytes := do
  let length ← toBytes 2 bytes.length
  return length ++ bytes

def encodeTrust : Option AdmittedTrustEvidence → Except PyExc Bytes
  | none => toBytes 2 0
  | some trust => do
    let bytes ← trust.encode
    encodeSized bytes

def encodeRvbe1 (env : Rvbe1) : Except PyExc Bytes := do
  validateRvbe1Caps env
  let schema ← toBytes 2 rvbe1Schema
  let clock ← toBytes 8 env.clock
  let capPayload ← toBytes 4 env.capPayload
  let capChunks ← toBytes 4 env.capChunks
  let capState ← toBytes 4 env.capState
  let capReplayEntries ← toBytes 4 env.capReplayEntries
  let capReplayBytes ← toBytes 4 env.capReplayBytes
  let keygenSeed ← encodeSized env.keygenSeed
  let encapsCoins ← encodeSized env.encapsCoins
  let ecDhSeed ← encodeSized env.ecDhSeed
  let trust ← encodeTrust env.admittedTrust
  let reservedTail ← toBytes 4 0
  return rvbe1Magic ++ (schema ++ (clock ++ (capPayload ++ (capChunks ++ (capState ++ (capReplayEntries ++
    (capReplayBytes ++ (keygenSeed ++ (encapsCoins ++ (ecDhSeed ++ (trust ++ reservedTail)))))))))))

def readSized (r : Bytes) : Except PyExc (Bytes × Bytes) := do
  let (length, r) ← readWord 2 r
  readBytes length r

def readTrust (r : Bytes) : Except PyExc (Option AdmittedTrustEvidence × Bytes) := do
  let (trustLen, r) ← readWord 2 r
  if trustLen = 0 then return (none, r)
  else if trustLen = admittedTrustLen then
    let (raw, r) ← readBytes admittedTrustLen r
    return (some {
      initiatorCertDigest := raw.take 32
      initiatorIdentityPub := (raw.drop 32).take 32
      responderCertDigest := (raw.drop 64).take 32
      responderIdentityPub := (raw.drop 96).take 32 }, r)
  else valueError (lit "rvbe1 admitted_trust_len")

def decodeRvbe1 (data : Bytes) : Except PyExc Rvbe1 := do
  expectMagic data rvbe1Magic
  let (schema, r) ← readWord 2 (data.drop 8)
  orRaise (schema = rvbe1Schema) (lit "rvbe1 bad schema")
  let (clock, r) ← readWord 8 r
  let (capPayload, r) ← readWord 4 r
  let (capChunks, r) ← readWord 4 r
  let (capState, r) ← readWord 4 r
  let (capReplayEntries, r) ← readWord 4 r
  let (capReplayBytes, r) ← readWord 4 r
  let (keygenSeed, r) ← readSized r
  let (encapsCoins, r) ← readSized r
  let (ecDhSeed, r) ← readSized r
  let (admittedTrust, r) ← readTrust r
  let (reservedTail, r) ← readWord 4 r
  orRaise (reservedTail = 0) (lit "rvbe1 reserved_tail")
  rejectTrailing r
  let env : Rvbe1 := {
    clock, capPayload, capChunks, capState, capReplayEntries, capReplayBytes, keygenSeed, encapsCoins,
    ecDhSeed, admittedTrust }
  validateRvbe1Caps env
  return env

end Rdap.Braid
